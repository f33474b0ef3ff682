import Mathlib.Order.Bounds.Basic
import GraphLanguages.Hover
import GraphLanguages.Proofs.ParseOutput

/-! Hovering over a tree.

The leaves of a tree lie in the text one behind the other (`Tree.Ordered`). So at most one of
them is at an offset, the rule right around it is the only one there (`Encloses.unique`), and
the first leaf that is found is the one. Rules lie in one another or one behind the other
(`HasRule.nested`), and so do the stretches of text that they cover. -/
namespace GraphLanguages

/-- The offset is one of a byte of the token. -/
def Token.Holds (t : Token) (offset : Nat) : Prop :=
  t.start ≤ offset ∧ offset < t.stop

namespace Tree

/-! ### Rules in a tree -/

/-- The rule stands somewhere in the tree. -/
inductive HasRule : Tree → RuleNode → Prop
  | here (name : String) (children : List Tree) : HasRule (.node name children) ⟨name, children⟩
  | inside {name : String} {children : List Tree} {child : Tree} {r : RuleNode} :
      child ∈ children → HasRule child r → HasRule (.node name children) r

/-- The rule stands in the tree, right around the leaf. -/
structure Encloses (t : Tree) (r : RuleNode) (u : Token) : Prop where
  rule : t.HasRule r
  child : .leaf u ∈ r.children

/-- The leaves of a part of some trees are in a row. -/
theorem leaves_within_of_mem {t : Tree} {ts : List Tree} (h : t ∈ ts) :
    t.leaves <:+: leavesOf ts := by
  obtain ⟨before, after, rfl⟩ := List.append_of_mem h
  exact ⟨leavesOf before, leavesOf after, by rw [leavesOf_append, leavesOf, List.append_assoc]⟩

theorem HasRule.leaves_within {t : Tree} {r : RuleNode} (h : t.HasRule r) :
    leavesOf r.children <:+: t.leaves := by
  induction h with
  | here name children => exact List.infix_refl _
  | inside hchild _ ih => exact ih.trans (leaves_within_of_mem hchild)

theorem Encloses.mem_leaves {t : Tree} {r : RuleNode} {u : Token} (h : t.Encloses r u) :
    u ∈ leavesOf r.children :=
  (leaves_within_of_mem h.child).subset (List.mem_singleton_self u)

theorem Encloses.mem_tree {t : Tree} {r : RuleNode} {u : Token} (h : t.Encloses r u) :
    u ∈ t.leaves :=
  h.rule.leaves_within.subset h.mem_leaves

/-! ### Leaves in order -/

/-- Every one of the tokens ends in front of all the others. -/
def Before (ts us : List Token) : Prop :=
  ∀ t ∈ ts, ∀ u ∈ us, t.last < u.start

theorem Before.mono {ts us ts' us' : List Token} (h : Before ts us) (ht : ts' ⊆ ts)
    (hu : us' ⊆ us) : Before ts' us' :=
  fun t hmem u hmem' => h t (ht hmem) u (hu hmem')

/-- The leaves lie one behind the other. None is empty, and none is the sentinel. -/
structure Ordered (t : Tree) : Prop where
  order : t.leaves.Pairwise fun a b => a.last < b.start
  stop : ∀ u ∈ t.leaves, u.stop = u.last + 1
  ended : ∀ u ∈ t.leaves, u.isEndOfInput = false

theorem Ordered.child {name : String} {children : List Tree} {t : Tree}
    (h : (Tree.node name children).Ordered) (ht : t ∈ children) : t.Ordered :=
  have hwithin := leaves_within_of_mem ht
  ⟨h.order.sublist hwithin.sublist, fun u hu => h.stop u (hwithin.subset hu),
    fun u hu => h.ended u (hwithin.subset hu)⟩

theorem Ordered.covers_iff {t : Tree} (h : t.Ordered) {u : Token} (hu : u ∈ t.leaves)
    (offset : Nat) : covers u offset = true ↔ u.Holds offset := by
  have hstop := h.stop u hu
  simp only [covers, h.ended u hu, Token.Holds, Bool.not_false, Bool.true_and, Bool.and_eq_true,
    decide_eq_true_eq]
  omega

/-- No offset is in a token and in one behind it. -/
theorem Ordered.not_before {t : Tree} (h : t.Ordered) {ts us : List Token} {u v : Token}
    {offset : Nat} (hu : u ∈ t.leaves) (ho : u.Holds offset) (ho' : v.Holds offset)
    (hts : u ∈ ts) (hus : v ∈ us) : ¬Before ts us := by
  intro hbefore
  have hlast := hbefore u hts v hus
  have hstop := h.stop u hu
  have hstart := ho'.1
  have hend := ho.2
  omega

/-- Two of some trees are the same, or the leaves of one are in front of those of the
other. -/
theorem eq_or_before {ts : List Tree} (h : (leavesOf ts).Pairwise fun a b => a.last < b.start)
    {t u : Tree} (ht : t ∈ ts) (hu : u ∈ ts) :
    t = u ∨ Before t.leaves u.leaves ∨ Before u.leaves t.leaves := by
  induction ts with
  | nil => cases ht
  | cons first rest ih =>
    obtain ⟨-, hrest, hcross⟩ := List.pairwise_append.mp h
    have hfirst {v : Tree} (hv : v ∈ rest) : Before first.leaves v.leaves :=
      fun a ha b hb => hcross a ha b ((leaves_within_of_mem hv).subset hb)
    cases ht with
    | head =>
      cases hu with
      | head => exact .inl rfl
      | tail _ hu => exact .inr (.inl (hfirst hu))
    | tail _ ht =>
      cases hu with
      | head => exact .inr (.inr (hfirst ht))
      | tail _ hu => exact ih hrest ht hu

/-- Rules lie in one another or side by side. -/
theorem HasRule.nested {t : Tree} {r r' : RuleNode} (ht : t.Ordered) (h : t.HasRule r)
    (h' : t.HasRule r') :
    leavesOf r.children ⊆ leavesOf r'.children ∨ leavesOf r'.children ⊆ leavesOf r.children ∨
      Before (leavesOf r.children) (leavesOf r'.children) ∨
      Before (leavesOf r'.children) (leavesOf r.children) := by
  induction h with
  | here name children => exact .inr (.inl h'.leaves_within.subset)
  | @inside name children child r hchild hr ih =>
    cases h' with
    | here =>
      have hsub : leavesOf r.children ⊆ (Tree.node name children).leaves :=
        (HasRule.inside hchild hr).leaves_within.subset
      exact .inl hsub
    | inside hchild' hr' =>
      have hsub := hr.leaves_within.subset
      have hsub' := hr'.leaves_within.subset
      rcases eq_or_before ht.order hchild hchild' with rfl | hbefore | hbefore
      · exact ih (ht.child hchild) hr'
      · exact .inr (.inr (.inl (hbefore.mono hsub hsub')))
      · exact .inr (.inr (.inr (hbefore.mono hsub' hsub)))

/-- Only one rule is right around the leaf at an offset. -/
theorem Encloses.unique {t : Tree} {r r' : RuleNode} {u u' : Token} {offset : Nat}
    (ht : t.Ordered) (h : t.Encloses r u) (h' : t.Encloses r' u') (ho : u.Holds offset)
    (ho' : u'.Holds offset) : r = r' := by
  obtain ⟨hr, hu⟩ := h
  obtain ⟨hr', hu'⟩ := h'
  -- children of one node that have the offset in a leaf are the same child
  have hsame {name : String} {children : List Tree} (ht : (Tree.node name children).Ordered)
      {c c' : Tree} (hc : c ∈ children) (hc' : c' ∈ children) (hmem : u ∈ c.leaves)
      (hmem' : u' ∈ c'.leaves) : c = c' := by
    have hall := (leaves_within_of_mem hc).subset hmem
    have hall' := (leaves_within_of_mem hc').subset hmem'
    rcases eq_or_before ht.order hc hc' with heq | hbefore | hbefore
    · exact heq
    · exact absurd hbefore (ht.not_before hall ho ho' hmem hmem')
    · exact absurd hbefore (ht.not_before hall' ho' ho hmem' hmem)
  induction hr with
  | here name children =>
    cases hr' with
    | here => rfl
    | inside hchild hr' =>
      have hmem' := (Encloses.mk hr' hu').mem_tree
      cases hsame ht hu hchild (List.mem_singleton_self u) hmem'
      cases hr'
  | @inside name children child r hchild hr ih =>
    have hmem := (Encloses.mk hr hu).mem_tree
    cases hr' with
    | here =>
      cases hsame ht hchild hu' hmem (List.mem_singleton_self u')
      cases hr
    | inside hchild' hr' =>
      have hmem' := (Encloses.mk hr' hu').mem_tree
      cases hsame ht hchild hchild' hmem hmem'
      exact ih (ht.child hchild) hu hr'

/-! ### The path to a leaf -/

/-- The path goes down to a leaf of the tree, by the rules around it. -/
inductive LeadsTo : Tree → TokenPath → Prop
  | leaf (u : Token) : LeadsTo (.leaf u) ⟨u, []⟩
  | node {name : String} {children : List Tree} {child : Tree} {p : TokenPath} :
      child ∈ children → LeadsTo child p →
      LeadsTo (.node name children) { p with ancestors := ⟨name, children⟩ :: p.ancestors }

mutual

theorem leadsTo_of_path? {offset : Nat} {t : Tree} {p : TokenPath}
    (h : t.path? offset = some p) : t.LeadsTo p ∧ covers p.token offset = true := by
  cases t with
  | leaf u =>
    rw [path?] at h
    split at h
    next hu =>
      cases h
      exact ⟨.leaf u, hu⟩
    next => cases h
  | node name children =>
    obtain ⟨q, hq, rfl⟩ := Option.map_eq_some_iff.mp h
    obtain ⟨child, hchild, hleads, hcovers⟩ := leadsTo_of_pathIn? hq
    exact ⟨.node hchild hleads, hcovers⟩

theorem leadsTo_of_pathIn? {offset : Nat} {ts : List Tree} {p : TokenPath}
    (h : pathIn? offset ts = some p) :
    ∃ t ∈ ts, t.LeadsTo p ∧ covers p.token offset = true := by
  cases ts with
  | nil => cases h
  | cons t ts =>
    rw [pathIn?] at h
    split at h
    next hpath =>
      cases h
      exact ⟨t, List.mem_cons_self .., leadsTo_of_path? hpath⟩
    next =>
      obtain ⟨u, hu, hleads⟩ := leadsTo_of_pathIn? h
      exact ⟨u, List.mem_cons_of_mem t hu, hleads⟩

end

mutual

theorem not_covers_of_path? {offset : Nat} {t : Tree} (h : t.path? offset = none) :
    ∀ u ∈ t.leaves, covers u offset = false := by
  cases t with
  | leaf v =>
    intro u hu
    obtain rfl := List.mem_singleton.mp hu
    rw [path?] at h
    split at h
    next => cases h
    next hv => simpa using hv
  | node name children => exact not_covers_of_pathIn? (Option.map_eq_none_iff.mp h)

theorem not_covers_of_pathIn? {offset : Nat} {ts : List Tree} (h : pathIn? offset ts = none) :
    ∀ u ∈ leavesOf ts, covers u offset = false := by
  cases ts with
  | nil => exact fun u hu => by cases hu
  | cons t ts =>
    rw [pathIn?] at h
    split at h
    next => cases h
    next hpath =>
      intro u hu
      rcases List.mem_append.mp hu with hu | hu
      · exact not_covers_of_path? hpath u hu
      · exact not_covers_of_pathIn? h u hu

end

theorem LeadsTo.mem_leaves {t : Tree} {p : TokenPath} (h : t.LeadsTo p) :
    p.token ∈ t.leaves := by
  induction h with
  | leaf u => exact List.mem_singleton_self u
  | node hchild _ ih => exact (leaves_within_of_mem hchild).subset ih

/-- The innermost rule on the way is the one right around the leaf. -/
theorem LeadsTo.enclosing {t : Tree} {p : TokenPath} (h : t.LeadsTo p) :
    t = .leaf p.token ∧ p.ancestors = [] ∨
      ∃ r, p.enclosing? = some r ∧ t.Encloses r p.token := by
  induction h with
  | leaf u => exact .inl ⟨rfl, rfl⟩
  | @node name children child p hchild _ ih =>
    refine .inr ?_
    rcases ih with ⟨rfl, hnone⟩ | ⟨r, hr, hencloses⟩
    · exact ⟨⟨name, children⟩, by simp [TokenPath.enclosing?, hnone], .here name children, hchild⟩
    · refine ⟨r, ?_, .inside hchild hencloses.rule, hencloses.child⟩
      have hlast : p.ancestors.getLast? = some r := hr
      simp [TokenPath.enclosing?, List.getLast?_cons, hlast]

/-! ### What a rule covers -/

theorem spanOf?_eq_some {ts : List Token} {low high : Nat} :
    spanOf? ts = some (low, high) ↔
      (ts.map Token.start).min? = some low ∧ (ts.map Token.stop).max? = some high := by
  cases ts with
  | nil => simp [spanOf?]
  | cons t ts =>
    simp only [spanOf?, List.map_cons, List.min?_cons', List.max?_cons', List.foldl_map,
      Option.some.injEq, Prod.mk.injEq]

end Tree

/-- The hover names the rule, and goes from the least start to the greatest end of the leaves
below it. -/
structure Hover.Shows (h : Hover) (r : RuleNode) : Prop where
  rule : h.rule = r.name
  start : IsLeast {n | ∃ t ∈ Tree.leavesOf r.children, t.start = n} h.start
  stop : IsGreatest {n | ∃ t ∈ Tree.leavesOf r.children, t.stop = n} h.stop

theorem Hover.shows_iff {h : Hover} {r : RuleNode} :
    h.Shows r ↔ h.rule = r.name ∧ r.span? = some (h.start, h.stop) := by
  have hstart : IsLeast {n | ∃ t ∈ Tree.leavesOf r.children, t.start = n} h.start ↔
      ((Tree.leavesOf r.children).map Token.start).min? = some h.start := by
    rw [List.min?_eq_some_iff]
    simp [IsLeast, lowerBounds]
  have hstop : IsGreatest {n | ∃ t ∈ Tree.leavesOf r.children, t.stop = n} h.stop ↔
      ((Tree.leavesOf r.children).map Token.stop).max? = some h.stop := by
    rw [List.max?_eq_some_iff]
    simp [IsGreatest, upperBounds]
  rw [RuleNode.span?, Tree.spanOf?_eq_some, ← hstart, ← hstop]
  exact ⟨fun hs => ⟨hs.rule, hs.start, hs.stop⟩, fun hs => ⟨hs.1, hs.2.1, hs.2.2⟩⟩

/-- A rule is shown in one way. -/
theorem Hover.Shows.unique {h h' : Hover} {r : RuleNode} (hs : h.Shows r) (hs' : h'.Shows r) :
    h = h' := by
  have hrule := hs.rule.trans hs'.rule.symm
  have hstart := hs.start.unique hs'.start
  have hstop := hs.stop.unique hs'.stop
  obtain ⟨rule, start, stop⟩ := h
  obtain ⟨rule', start', stop'⟩ := h'
  obtain rfl : rule = rule' := hrule
  obtain rfl : start = start' := hstart
  obtain rfl : stop = stop' := hstop
  rfl

namespace Tree
variable {t : Tree} {offset : Nat} {h : Hover}

theorem span?_eq_some_of_mem {r : RuleNode} {u : Token} (hu : u ∈ leavesOf r.children) :
    ∃ low high, r.span? = some (low, high) := by
  cases hleaves : leavesOf r.children with
  | nil =>
    rw [hleaves] at hu
    cases hu
  | cons v vs => exact ⟨_, _, by rw [RuleNode.span?, hleaves, spanOf?]⟩

/-- Where a leaf is found, the rule around it is shown. -/
theorem exists_hover?_of_path? {p : TokenPath} (hroot : t.isRule = true)
    (hp : t.path? offset = some p) :
    ∃ r h, t.Encloses r p.token ∧ t.hover? offset = some h ∧ h.Shows r := by
  rcases (leadsTo_of_path? hp).1.enclosing with ⟨rfl, -⟩ | ⟨r, hr, hencloses⟩
  · cases hroot
  · obtain ⟨low, high, hspan⟩ := span?_eq_some_of_mem hencloses.mem_leaves
    refine ⟨r, ⟨r.name, low, high⟩, hencloses, ?_, Hover.shows_iff.mpr ⟨rfl, hspan⟩⟩
    simp only [hover?, hp, hr, hspan, Option.bind_some, Option.map_some]

theorem hover?_eq_some_iff (ht : t.Ordered) (hroot : t.isRule = true) :
    t.hover? offset = some h ↔ ∃ r u, t.Encloses r u ∧ u.Holds offset ∧ h.Shows r := by
  constructor
  · intro hh
    obtain ⟨p, hp, -⟩ := Option.bind_eq_some_iff.mp hh
    obtain ⟨hleads, hcovers⟩ := leadsTo_of_path? hp
    obtain ⟨r, h', hencloses, hh', hshows⟩ := exists_hover?_of_path? hroot hp
    obtain rfl : h' = h := Option.some.inj (hh'.symm.trans hh)
    exact ⟨r, p.token, hencloses, (ht.covers_iff hleads.mem_leaves offset).mp hcovers, hshows⟩
  · intro hfound
    obtain ⟨r, u, hencloses, ho, hshows⟩ := hfound
    have hu := hencloses.mem_tree
    have hcovers := (ht.covers_iff hu offset).mpr ho
    cases hp : t.path? offset with
    | none => exact absurd (not_covers_of_path? hp u hu) (by simp [hcovers])
    | some p =>
      obtain ⟨hleads, hcovers'⟩ := leadsTo_of_path? hp
      obtain ⟨r', h', hencloses', hh', hshows'⟩ := exists_hover?_of_path? hroot hp
      have ho' := (ht.covers_iff hleads.mem_leaves offset).mp hcovers'
      obtain rfl := hencloses.unique ht hencloses' ho ho'
      rw [hh', hshows'.unique hshows]

/-- There is something to show exactly at the bytes of leaves. -/
theorem isSome_hover?_iff (ht : t.Ordered) (hroot : t.isRule = true) :
    (t.hover? offset).isSome = true ↔ ∃ u ∈ t.leaves, u.Holds offset := by
  constructor
  · intro hsome
    obtain ⟨h, hh⟩ := Option.isSome_iff_exists.mp hsome
    obtain ⟨r, u, hencloses, ho, -⟩ := (hover?_eq_some_iff ht hroot).mp hh
    exact ⟨u, hencloses.mem_tree, ho⟩
  · intro hleaf
    obtain ⟨u, hu, ho⟩ := hleaf
    cases hp : t.path? offset with
    | none =>
      have hcovers := (ht.covers_iff hu offset).mpr ho
      exact absurd (not_covers_of_path? hp u hu) (by simp [hcovers])
    | some p =>
      obtain ⟨r, h, -, hh, -⟩ := exists_hover?_of_path? hroot hp
      rw [hh]
      rfl

end Tree

/-- The offset is in what the hover covers. -/
def Hover.Holds (h : Hover) (offset : Nat) : Prop :=
  h.start ≤ offset ∧ offset < h.stop

/-- What one hover covers lies in what the other one covers, or they have nothing in common. -/
def Hover.Nests (h h' : Hover) : Prop :=
  h'.start ≤ h.start ∧ h.stop ≤ h'.stop ∨ h.start ≤ h'.start ∧ h'.stop ≤ h.stop ∨
    h.stop ≤ h'.start ∨ h'.stop ≤ h.start

namespace Hover.Shows
variable {t : Tree} {h h' : Hover} {r r' : RuleNode}

theorem holds {u : Token} {offset : Nat} (hs : h.Shows r)
    (hu : u ∈ Tree.leavesOf r.children) (ho : u.Holds offset) : h.Holds offset := by
  have hstart := hs.start.2 ⟨u, hu, rfl⟩
  have hstop := hs.stop.2 ⟨u, hu, rfl⟩
  exact ⟨hstart.trans ho.1, ho.2.trans_le hstop⟩

theorem within (hs : h.Shows r) (hs' : h'.Shows r')
    (hsub : Tree.leavesOf r.children ⊆ Tree.leavesOf r'.children) :
    h'.start ≤ h.start ∧ h.stop ≤ h'.stop := by
  obtain ⟨u, hu, hstart⟩ := hs.start.1
  obtain ⟨v, hv, hstop⟩ := hs.stop.1
  exact ⟨hstart ▸ hs'.start.2 ⟨u, hsub hu, rfl⟩, hstop ▸ hs'.stop.2 ⟨v, hsub hv, rfl⟩⟩

theorem apart (ht : t.Ordered) (hr : t.HasRule r) (hs : h.Shows r) (hs' : h'.Shows r')
    (hbefore : Tree.Before (Tree.leavesOf r.children) (Tree.leavesOf r'.children)) :
    h.stop ≤ h'.start := by
  obtain ⟨u, hu, hstop⟩ := hs.stop.1
  obtain ⟨v, hv, hstart⟩ := hs'.start.1
  have hlast := ht.stop u (hr.leaves_within.subset hu)
  have := hbefore u hu v hv
  omega

/-- Rules of one tree cover stretches of text that nest. -/
theorem nests (ht : t.Ordered) (hr : t.HasRule r) (hr' : t.HasRule r') (hs : h.Shows r)
    (hs' : h'.Shows r') : h.Nests h' := by
  rcases hr.nested ht hr' with hsub | hsub | hbefore | hbefore
  · exact .inl (hs.within hs' hsub)
  · exact .inr (.inl (hs'.within hs hsub))
  · exact .inr (.inr (.inl (hs.apart ht hr hs' hbefore)))
  · exact .inr (.inr (.inr (hs'.apart ht hr' hs hbefore)))

end Hover.Shows

/-! ### The trees of documents -/

theorem Tree.isRule_mapTokens (f : Token → Token) (t : Tree) :
    (t.mapTokens f).isRule = t.isRule := by
  cases t <;> rfl

theorem ParseOutput.LiesIn.ordered_tree {raw : List Char} {o : ParseOutput} (h : o.LiesIn raw)
    (hended : ∀ t ∈ o.tokens, t.isEndOfInput = false) : o.tree.Ordered where
  order := h.order.sublist h.shared.leaves.sublist
  stop u hu := (h.tokens u (h.shared.leaves.subset hu)).stop_eq
  ended u hu := hended u (h.shared.leaves.subset hu)

/-- The root of a document's tree is a rule. -/
theorem Frontend.isRule_parseDocument {f : Frontend} (hg : Grammar.Progressive f.grammar)
    (raw : List Char) : (f.parseDocument raw).tree.isRule = true := by
  obtain ⟨o, ho⟩ := hg.exists_runs_document f.vocabulary f.root
    (Text.bytes (f.decode raw).text) (f.lexer.tokenize (f.decode raw).text)
  have hparse : (f.parse raw).tree.isRule = true :=
    congrArg (fun result => result.1.isRule) (Grammar.parse_of_runs ho)
  unfold parseDocument ParseOutput.toRaw
  split
  next => exact hparse
  next => exact (Tree.isRule_mapTokens ..).trans hparse

/-- **Hovering is exact, and what is shown nests.** There is something to show exactly at the
bytes of the leaves: the rule right around the leaf there, with all that it covers. What is
shown anywhere in a document lies in one another or side by side. -/
theorem hover?_exact (l : Language) (options : Options) (raw : List Char) :
    let tree := ((l.profile options).frontend.parseDocument raw).tree
    (∀ offset, (tree.hover? offset).isSome = true ↔ ∃ t ∈ tree.leaves, t.Holds offset) ∧
      (∀ offset h, tree.hover? offset = some h ↔
        ∃ r t, tree.Encloses r t ∧ t.Holds offset ∧ h.Shows r) ∧
      (∀ offset h, tree.hover? offset = some h → h.Holds offset) ∧
      ∀ offset offset' h h', tree.hover? offset = some h → tree.hover? offset' = some h' →
        h.Nests h' := by
  intro tree
  have hl := l.lawful options
  have ht : tree.Ordered := (hl.liesIn (l.checksTokens options) raw).ordered_tree
    (Frontend.isEndOfInput_of_mem_parseDocument hl.no_sentinel)
  have hroot : tree.isRule = true := Frontend.isRule_parseDocument hl.progressive raw
  refine ⟨fun offset => Tree.isSome_hover?_iff ht hroot,
    fun offset h => Tree.hover?_eq_some_iff ht hroot, fun offset h hh => ?_,
    fun offset offset' h h' hh hh' => ?_⟩
  · obtain ⟨r, u, hencloses, ho, hs⟩ := (Tree.hover?_eq_some_iff ht hroot).mp hh
    exact hs.holds hencloses.mem_leaves ho
  · obtain ⟨r, u, hencloses, -, hs⟩ := (Tree.hover?_eq_some_iff ht hroot).mp hh
    obtain ⟨r', u', hencloses', -, hs'⟩ := (Tree.hover?_eq_some_iff ht hroot).mp hh'
    exact hs.nests ht hencloses.rule hencloses'.rule hs'

/-- A keyword with an escape in it, and a variable behind which the parse stops. -/
theorem hover?_exact_escape :
    let tree := ((Language.sparql.profile {}).frontend.parseDocument
      "\\u0041sk\x7b?s".toList).tree
    let whole : Hover := ⟨"AskQuery", 0, 11⟩
    let variable_ : Hover := ⟨"Var", 9, 11⟩
    tree.hover? 3 = some whole ∧ tree.hover? 10 = some variable_ ∧
      (∃ t ∈ tree.leaves, t.Holds 3) ∧ whole.Holds 3 ∧
      (∃ r t, tree.Encloses r t ∧ t.Holds 10 ∧ variable_.Shows r) ∧ whole.Nests variable_ := by
  intro tree whole variable_
  have hfound : tree.hover? 3 = some whole ∧ tree.hover? 10 = some variable_ := by
    decide +kernel
  obtain ⟨hsome, hshows, hholds, hnests⟩ := hover?_exact .sparql {} "\\u0041sk\x7b?s".toList
  refine ⟨hfound.1, hfound.2, (hsome 3).mp ?_, hholds 3 _ hfound.1,
    (hshows 10 _).mp hfound.2, hnests 3 10 _ _ hfound.1 hfound.2⟩
  exact Option.isSome_of_eq_some hfound.1

end GraphLanguages
