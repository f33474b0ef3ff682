import GraphLanguages.Completion.Items
import GraphLanguages.Proofs.ParseOutput

/-! What content assist looks at.

Content assist gets the tokens that end where the replacement starts, or before
(`filter_stop`), so candidates are computed for the text in front of what they replace
(`candidates_in_front`). -/
namespace GraphLanguages.Completion

/-! ### Binary search -/

/-- With a property that the numbers below `k` have and no others, what is kept holds `k`, or
begins right in front of it. -/
theorem halve_spec {holds : Nat → Bool} {k : Nat} (h : ∀ i, holds i = true ↔ i < k)
    {base size : Nat} (hbase : base = 0 ∨ base < k) (hsize : k ≤ base + size) :
    (halve holds base size = 0 ∨ halve holds base size < k) ∧ k ≤ halve holds base size + 1 := by
  fun_induction halve holds base size with
  | case1 base size hle => exact ⟨hbase, by omega⟩
  | case2 base size hlt hmiddle ih =>
    exact ih (.inr ((h _).mp hmiddle)) (by omega)
  | case3 base size hlt hmiddle ih =>
    have := mt (h _).mpr hmiddle
    exact ih hbase (by omega)

section
variable {α : Type} {holds : α → Bool} {as : List α}

/-- Where the elements with a property come first, the numbers of these are those below the one
of the first element without it. -/
theorem any_getElem?_iff (h : as.Pairwise fun a b => holds b = true → holds a = true) (i : Nat) :
    as[i]?.any holds = true ↔ i < (as.takeWhile holds).length := by
  induction as generalizing i with
  | nil => simp
  | cons a as ih =>
    obtain ⟨hfirst, hrest⟩ := List.pairwise_cons.mp h
    by_cases ha : holds a = true
    · cases i with
      | zero => simp [ha]
      | succ i => simpa [ha] using ih hrest i
    · have hnone : ∀ b ∈ a :: as, ¬holds b = true := by
        intro b hb
        rcases List.mem_cons.mp hb with rfl | hb
        · exact ha
        · exact mt (hfirst b hb) ha
      simp only [List.takeWhile_cons_of_neg ha, List.length_nil, Nat.not_lt_zero, iff_false,
        Option.any_eq_true, not_exists, not_and]
      exact fun b hb => hnone b (List.mem_of_getElem? hb)

/-- There the search finds how many they are. -/
theorem partitionPoint_eq_length (h : as.Pairwise fun a b => holds b = true → holds a = true) :
    partitionPoint holds as = (as.takeWhile holds).length := by
  have hlength : (as.takeWhile holds).length ≤ 0 + as.length := by
    rw [Nat.zero_add]
    exact (List.takeWhile_prefix holds).length_le
  obtain ⟨hbelow, hnext⟩ := halve_spec (any_getElem?_iff h) (.inl rfl) hlength
  simp only [partitionPoint, any_getElem?_iff h]
  split <;> omega

end

/-! ### What is in front of the cursor -/

section
variable {raw : List Char} {o : ParseOutput} {t : Token}

theorem stop_eq (ho : o.LiesIn raw) (ht : t ∈ o.tokens) : t.stop = t.last + 1 :=
  (ho.tokens t ht).stop_eq

/-- The tokens that end before a token of a text are those in front of it. -/
theorem filter_stop_of_getElem? (ho : o.LiesIn raw) {n : Nat} (ht : o.tokens[n]? = some t) :
    o.tokens.filter (·.stop ≤ t.start) = o.tokens.take n := by
  have hmem : t ∈ o.tokens := List.mem_of_getElem? ht
  have hsplit : o.tokens = o.tokens.take n ++ t :: o.tokens.drop (n + 1) := by
    obtain ⟨hn, rfl⟩ := List.getElem?_eq_some_iff.mp ht
    rw [← List.drop_eq_getElem_cons, List.take_append_drop]
  have horder := ho.order
  rw [hsplit, List.pairwise_append, List.pairwise_cons] at horder
  obtain ⟨-, ⟨hlater, -⟩, hearlier⟩ := horder
  have hbefore : ∀ u ∈ o.tokens.take n, u.stop ≤ t.start := fun u hu => by
    rw [stop_eq ho (List.mem_of_mem_take hu)]
    exact hearlier u hu t (List.mem_cons_self ..)
  have hspan := (ho.tokens t hmem).order
  have hbehind : ∀ u ∈ t :: o.tokens.drop (n + 1), ¬u.stop ≤ t.start := by
    intro u hu
    rcases List.mem_cons.mp hu with rfl | hu
    · rw [stop_eq ho hmem]
      omega
    · have := hlater u hu
      have := (ho.tokens u (List.mem_of_mem_drop hu)).order
      rw [stop_eq ho (List.mem_of_mem_drop hu)]
      omega
  conv_lhs => rw [hsplit]
  rw [List.filter_append, List.filter_eq_self.mpr (by simpa using hbefore),
    List.filter_eq_nil_iff.mpr (by simpa using hbehind), List.append_nil]

/-- In order of their starts, the tokens that start before an offset come first. -/
theorem filter_start_of_pairwise {tokens : List Token} {offset : Nat}
    (h : tokens.Pairwise fun a b => a.start < b.start) :
    tokens.filter (·.start < offset) = tokens.takeWhile (·.start < offset) := by
  induction tokens with
  | nil => rfl
  | cons t ts ih =>
    obtain ⟨hlater, hsorted⟩ := List.pairwise_cons.mp h
    by_cases ht : t.start < offset
    · simp only [List.filter_cons, List.takeWhile_cons, ht, decide_true, if_true, ih hsorted]
    · have hnone : ∀ u ∈ ts, ¬u.start < offset := fun u hu => by
        have := hlater u hu
        omega
      simpa [List.takeWhile_cons, ht] using hnone

/-- Where no token is touched, those that start before the offset end before it. -/
theorem filter_stop_of_between (ho : o.LiesIn raw) {offset : Nat}
    (h : tokenIndexAt? o.tokens offset = none) :
    o.tokens.filter (·.stop ≤ offset) =
      o.tokens.take (partitionPoint (·.start < offset) o.tokens) := by
  have huntouched : ∀ t ∈ o.tokens, ¬(t.start ≤ offset ∧ offset ≤ t.last + 1) := by
    simpa [tokenIndexAt?] using h
  have hstop : ∀ t ∈ o.tokens, (t.stop ≤ offset ↔ t.start < offset) := fun t ht => by
    have := huntouched t ht
    have := (ho.tokens t ht).order
    rw [stop_eq ho ht]
    omega
  have hsorted : o.tokens.Pairwise fun a b => a.start < b.start :=
    ho.order.imp_of_mem fun ha _ hab => Nat.lt_of_le_of_lt (ho.tokens _ ha).order hab
  have hcongr : o.tokens.filter (·.stop ≤ offset) = o.tokens.filter (·.start < offset) :=
    List.filter_congr fun t ht => decide_eq_decide.mpr (hstop t ht)
  have hfront : o.tokens.Pairwise fun a b =>
      decide (b.start < offset) = true → decide (a.start < offset) = true :=
    hsorted.imp fun hlt hb => decide_eq_true (hlt.trans (of_decide_eq_true hb))
  rw [hcongr, filter_start_of_pairwise hsorted, partitionPoint_eq_length hfront]
  exact List.prefix_iff_eq_take.mp (List.takeWhile_prefix _)

theorem Cursor.firstHalf?_eq_some {tokens : List Token} {i : Nat} {t p : Token}
    (h : firstHalf? tokens i t = some p) : tokens[i - 1]? = some p ∧ p.abuts t = true := by
  unfold firstHalf? at h
  split at h
  next => cases h
  next =>
    obtain ⟨hp, hhalf⟩ := Option.filter_eq_some_iff.mp h
    simp only [Bool.and_eq_true] at hhalf
    exact ⟨hp, hhalf.1.1⟩

/-- **Content assist looks at the tokens that end at or before the start of what is
replaced.** -/
theorem Cursor.filter_stop (ho : o.LiesIn raw) {settings : Settings} {offset : Nat}
    {c : Cursor} (h : Cursor.locate? settings o.tokens offset = some c) :
    o.tokens.filter (·.stop ≤ c.range.start) = o.tokens.take c.assisted := by
  unfold locate? at h
  split at h
  next i _ =>
    obtain ⟨t, ht, rfl⟩ := Option.map_eq_some_iff.mp h
    cases hhalf : firstHalf? o.tokens i t with
    | none => simpa [atToken, hhalf] using filter_stop_of_getElem? ho ht
    | some p =>
      have hp := (firstHalf?_eq_some hhalf).1
      simpa [atToken, hhalf] using filter_stop_of_getElem? ho hp
  next hnone =>
    split at h
    next =>
      cases h
      exact filter_stop_of_between ho hnone
    next => cases h

end

theorem candidatesAt_eq (p : Profile) (tokens : List Token) (c : Cursor) :
    candidatesAt p tokens c = p.frontend.assist p.frontend.root (tokens.take c.assisted) ++
      longerWordsAt p.frontend.vocabulary tokens c := rfl

/-- **Candidates are those behind all tokens that end where the replacement starts, or before,
and behind no others.** -/
theorem candidates_in_front (l : Language) (options : Options) (raw : List Char) (offset : Nat)
    (c : Cursor)
    (h : Cursor.locate? l.completion ((l.frontend options).parseDocument raw).tokens offset =
      some c) :
    let p := l.profile options
    let tokens := (p.frontend.parseDocument raw).tokens
    let before := tokens.filter (·.stop ≤ c.range.start)
    tokens.take c.assisted = before ∧
      candidatesAt p tokens c =
        p.frontend.assist p.frontend.root before ++
          longerWordsAt p.frontend.vocabulary tokens c := by
  intro p tokens before
  have hbefore : tokens.take c.assisted = before :=
    (Cursor.filter_stop (parseDocument_liesIn l options raw) h).symm
  exact ⟨hbefore, by rw [candidatesAt_eq, hbefore]⟩

/-- A word in two tokens is replaced, so content assist looks at neither of them. -/
theorem candidates_in_front_strs :
    let p := Language.sparql.profile {}
    let tokens := (p.frontend.parseDocument "ask\x7b?s a strs".toList).tokens
    let c : Cursor := ⟨some 5, 4, ⟨9, 13⟩, none⟩
    Cursor.locate? Language.sparql.completion tokens 13 = some c ∧
      tokens.take 4 = tokens.filter (·.stop ≤ 9) ∧
      candidatesAt p tokens c = p.frontend.assist p.frontend.root (tokens.filter (·.stop ≤ 9)) ++
        longerWordsAt p.frontend.vocabulary tokens c := by
  intro p tokens c
  have hc : Cursor.locate? Language.sparql.completion tokens 13 = some c := by decide +kernel
  exact ⟨hc, candidates_in_front .sparql {} "ask\x7b?s a strs".toList 13 c hc⟩

end GraphLanguages.Completion
