import GraphLanguages.Proofs.Transport.Frame
import GraphLanguages.Transport.NodeChannel

/-! The bridge between lines and frames loses and duplicates nothing.

Its frames are those of the messages among the lines of the text that came in
(`toFrames_utf8`), and its lines are the bodies of the frames that came in
(`ofFrames_flatMap`). Both ways one after the other leave the messages, or the frames, as
they were. A body as long as a machine can address is all that a frame can announce. -/
namespace GraphLanguages.Transport.NodeChannel
open Text

/-! ### Messages -/

/-- JSON that is not the runtime's own. -/
def isMessage (text : List Char) : Bool :=
  (Json.parse? text).any (!isInternal ·)

/-- The messages among the lines of a text, without the space around them. -/
def messages (text : List Char) : List (List Char) :=
  ((text.splitOn '\n').map trim).filter isMessage

theorem payload?_eq (line : List Char) :
    payload? line = if isMessage (trim line) then some (trim line) else none := by
  cases hparse : Json.parse? (trim line) with
  | none => simp only [payload?, isMessage, hparse]; rfl
  | some message =>
    cases hinternal : isInternal message <;>
      simp [payload?, isMessage, hparse, hinternal]

theorem messages_of_not_mem {line : List Char} (h : '\n' ∉ line) :
    messages line = (payload? line).toList := by
  rw [messages, List.splitOn_eq_singleton h, payload?_eq]
  cases hline : isMessage (trim line) <;> simp [hline]

theorem messages_append {line : List Char} (h : '\n' ∉ line) (rest : List Char) :
    messages (line ++ '\n' :: rest) = messages line ++ messages rest := by
  simp only [messages, List.splitOn_append_cons_self_of_not_mem h, List.splitOn_eq_singleton h,
    List.map_cons, List.map_nil, List.filter_cons]
  split <;> rfl

/-- What ends the line is trimmed with the rest. -/
theorem payload?_concat (line : List Char) : payload? (line ++ ['\n']) = payload? line := by
  rw [payload?_eq, payload?_eq, trim_concat (by decide)]

/-! ### Lines to frames -/

/-- A text framed by its bytes. -/
def frame (text : List Char) : List UInt8 :=
  writeFrame (utf8 text)

/-- One line is taken off and goes on as a frame, if it is a message. -/
theorem toFramesFrom_line {fuel : Nat} {line : List Char} {bytes rest : List UInt8}
    (hne : bytes ≠ []) (htake : takeLine bytes = (utf8 line, rest)) :
    toFramesFrom (fuel + 1) bytes =
      ⟨(payload? line).toList.flatMap frame ++ (toFramesFrom fuel rest).written,
        (toFramesFrom fuel rest).error⟩ := by
  obtain ⟨b, bs, rfl⟩ := List.exists_cons_of_ne_nil hne
  simp only [toFramesFrom, htake, decode?_utf8]
  cases payload? line with
  | none => rfl
  | some text => simp [frame, encode_ofList]

theorem toFramesFrom_nil (fuel : Nat) :
    toFramesFrom fuel (utf8 []) = ⟨(messages []).flatMap frame, none⟩ := by
  have hmessages : messages [] = [] := by decide
  rw [hmessages]
  cases fuel <;> rfl

/-- Every line takes its bytes from the fuel, a line feed at least unless it is the last. -/
theorem toFramesFrom_utf8 {fuel : Nat} {text : List Char} (hfuel : (utf8 text).length ≤ fuel) :
    toFramesFrom fuel (utf8 text) = ⟨(messages text).flatMap frame, none⟩ := by
  induction fuel generalizing text with
  | zero =>
    rw [utf8_eq_nil.mp (List.length_eq_zero_iff.mp (Nat.le_zero.mp hfuel))]
    exact toFramesFrom_nil 0
  | succ fuel ih =>
    by_cases hempty : text = []
    · rw [hempty]
      exact toFramesFrom_nil (fuel + 1)
    have hne := mt utf8_eq_nil.mp hempty
    by_cases hmem : '\n' ∈ text
    · obtain ⟨line, rest, rfl, hline⟩ := List.eq_append_cons_of_mem hmem
      have hsplit : utf8 (line ++ '\n' :: rest) = utf8 (line ++ ['\n']) ++ utf8 rest := by
        rw [← utf8_append, List.append_assoc]
        rfl
      have hlater : (utf8 rest).length ≤ fuel := by
        have hfeed : 0 < (utf8 (line ++ ['\n'])).length :=
          List.length_pos_iff.mpr (mt utf8_eq_nil.mp (by simp))
        rw [hsplit, List.length_append] at hfuel
        omega
      rw [toFramesFrom_line hne (hsplit ▸ takeLine_utf8 hline _), ih hlater, payload?_concat,
        messages_append hline, messages_of_not_mem hline, List.flatMap_append]
    · have htake := takeLine_of_not_mem (mt lineFeed_mem_utf8.mp hmem)
      have hlater : toFramesFrom fuel [] = ⟨[], none⟩ := by cases fuel <;> rfl
      rw [toFramesFrom_line hne htake, messages_of_not_mem hmem, hlater, List.append_nil]

theorem toFrames_utf8 (text : List Char) :
    toFrames (utf8 text) = ⟨(messages text).flatMap frame, none⟩ :=
  toFramesFrom_utf8 (Nat.le_refl _)

/-! ### Frames to lines -/

/-- A text on a line. -/
def asLine (text : List Char) : List UInt8 :=
  utf8 text ++ [lineFeed]

theorem ofFrames_flatMap {texts : List (List Char)} (h : ∀ text ∈ texts, bytes text ≤ maxWord) :
    ofFrames (texts.flatMap frame) = ⟨texts.flatMap asLine, none⟩ := by
  have hread := @readFrames_flatMap_writeFrame (texts.map utf8) (by simpa [length_utf8])
  rw [List.flatMap_map] at hread
  change readFrames (texts.flatMap frame) = _ at hread
  rw [ofFrames, hread, List.flatMap_map]
  rfl

/-! ### Both ways -/

/-- A message as it stands on a line of its own. -/
structure Tidy (text : List Char) : Prop where
  isMessage : isMessage text = true
  oneLine : '\n' ∉ text
  trimmed : trim text = text

theorem messages_flatMap {texts : List (List Char)} (h : ∀ text ∈ texts, Tidy text) :
    messages (texts.flatMap fun text => text ++ ['\n']) = texts := by
  induction texts with
  | nil => decide
  | cons text texts ih =>
    obtain ⟨hmessage, hline, htrim⟩ := h text (.head _)
    have hpayload : payload? text = some text := by rw [payload?_eq, htrim, if_pos hmessage]
    rw [List.flatMap_cons, List.append_assoc, List.singleton_append, messages_append hline,
      messages_of_not_mem hline, hpayload, ih fun t ht => h t (.tail _ ht)]
    rfl

theorem flatMap_asLine (texts : List (List Char)) :
    texts.flatMap asLine = utf8 (texts.flatMap fun text => text ++ ['\n']) := by
  induction texts with
  | nil => rfl
  | cons text texts ih =>
    rw [List.flatMap_cons, List.flatMap_cons, utf8_append, utf8_append, ih]
    rfl

/-- Lines that became frames become the lines of the messages among them, and frames of
messages that became lines become the same frames. -/
theorem bridge_faithful :
    (∀ input text, decode? input = some text → (∀ m ∈ messages text, bytes m ≤ maxWord) →
      (toFrames input).error = none ∧
      ofFrames (toFrames input).written =
        ⟨(messages text).flatMap fun m => encode (String.ofList m) ++ [lineFeed], none⟩) ∧
    (∀ bodies : List String,
      (∀ body ∈ bodies, Tidy body.toList ∧ (encode body).length ≤ maxWord) →
      (ofFrames (bodies.flatMap fun body => writeFrame (encode body))).error = none ∧
      toFrames (ofFrames (bodies.flatMap fun body => writeFrame (encode body))).written =
        ⟨bodies.flatMap fun body => writeFrame (encode body), none⟩) := by
  constructor
  · intro input text hdecode hbound
    rw [decode?_eq_some_iff.mp hdecode, toFrames_utf8]
    refine ⟨rfl, ?_⟩
    simp only [encode_ofList]
    exact ofFrames_flatMap hbound
  · intro bodies h
    have hframes : (bodies.flatMap fun body => writeFrame (encode body)) =
        (bodies.map String.toList).flatMap frame := by
      simp only [List.flatMap_map, encode_eq, frame]
    have hbound : ∀ text ∈ bodies.map String.toList, bytes text ≤ maxWord := by
      intro text htext
      obtain ⟨body, hbody, rfl⟩ := List.mem_map.mp htext
      rw [← length_utf8, ← encode_eq]
      exact (h body hbody).2
    have htidy : ∀ text ∈ bodies.map String.toList, Tidy text := by
      intro text htext
      obtain ⟨body, hbody, rfl⟩ := List.mem_map.mp htext
      exact (h body hbody).1
    rw [hframes, ofFrames_flatMap hbound]
    refine ⟨rfl, ?_⟩
    rw [flatMap_asLine, toFrames_utf8, messages_flatMap htidy]

/-- A message between spaces, one of the runtime, and a text that is no JSON and ends no
line. -/
theorem bridge_faithful_lines :
    ofFrames (toFrames (encode " [1]\r\n\x7b\"cmd\":\"NODE_HANDLE\"\x7d\n[2")).written =
        ⟨encode "[1]\n", none⟩ ∧
      toFrames (ofFrames (writeFrame (encode "[1]"))).written =
        ⟨writeFrame (encode "[1]"), none⟩ := by
  have hmessages : messages " [1]\r\n\x7b\"cmd\":\"NODE_HANDLE\"\x7d\n[2".toList = ["[1]".toList] := by
    decide +kernel
  have hlines := (bridge_faithful.1 _ _
    (decode?_eq_some_iff.mpr (encode_eq " [1]\r\n\x7b\"cmd\":\"NODE_HANDLE\"\x7d\n[2"))
    (by rw [hmessages]; exact List.forall_mem_singleton.mpr (by decide +kernel))).2
  have hframes := (bridge_faithful.2 ["[1]"] (by
    intro body hbody
    obtain rfl := List.mem_singleton.mp hbody
    exact ⟨⟨by decide +kernel, by decide +kernel, by decide +kernel⟩, by decide +kernel⟩)).2
  rw [hmessages] at hlines
  constructor
  · rw [hlines]
    decide +kernel
  · simpa only [List.flatMap_cons, List.flatMap_nil, List.append_nil] using hframes

end GraphLanguages.Transport.NodeChannel
