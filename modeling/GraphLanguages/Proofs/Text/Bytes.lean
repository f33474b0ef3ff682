import GraphLanguages.Text.Bytes

/-! Cutting text at boundaries.

The boundaries of a text are the lengths of its first parts, so to cut a text there is
to give these parts (`slice?_append`). -/
namespace GraphLanguages.Text

theorem utf8Size_pos (c : Char) : 0 < c.utf8Size :=
  Char.utf8Size_pos c

theorem bytes_pos {cs : List Char} (h : cs ≠ []) : 0 < bytes cs := by
  cases cs with
  | nil => exact absurd rfl h
  | cons c cs =>
    have := utf8Size_pos c
    simp only [bytes]
    omega

/-- The bytes of a string are those of its characters. -/
theorem utf8ByteSize_ofList (cs : List Char) : (String.ofList cs).utf8ByteSize = bytes cs := by
  induction cs with
  | nil => rfl
  | cons c cs ih =>
    rw [show c :: cs = [c] ++ cs from rfl, String.ofList_append, String.utf8ByteSize_append, ih,
      ← String.singleton_eq_ofList, String.utf8ByteSize_singleton, bytes_append]
    rfl

/-- An offset that does not cut a character. -/
def IsBoundary (n : Nat) (cs : List Char) : Prop :=
  ∃ before after, cs = before ++ after ∧ n = bytes before

theorem dropBytes?_append (a b : List Char) : dropBytes? (bytes a) (a ++ b) = some b := by
  induction a with
  | nil => cases b <;> rfl
  | cons c cs ih =>
    have := utf8Size_pos c
    rw [bytes, List.cons_append, dropBytes?, if_neg (by omega), if_pos (by omega),
      Nat.add_sub_cancel_left, ih]

theorem takeBytes?_append (a b : List Char) : takeBytes? (bytes a) (a ++ b) = some a := by
  induction a with
  | nil => cases b <;> rfl
  | cons c cs ih =>
    have := utf8Size_pos c
    rw [bytes, List.cons_append, takeBytes?, if_neg (by omega), if_pos (by omega),
      Nat.add_sub_cancel_left, ih]
    rfl

theorem slice?_append (a b c : List Char) :
    slice? (bytes a) (bytes a + bytes b) (a ++ b ++ c) = some b := by
  rw [slice?, if_pos (Nat.le_add_right _ _), List.append_assoc, dropBytes?_append,
    Nat.add_sub_cancel_left]
  exact takeBytes?_append b c

theorem eq_append_of_takeBytes? {n : Nat} {cs part : List Char} (h : takeBytes? n cs = some part) :
    (∃ after, cs = part ++ after) ∧ n = bytes part := by
  induction cs generalizing n part with
  | nil =>
    rw [takeBytes?] at h
    split at h
    next hn =>
      cases h
      exact ⟨⟨[], rfl⟩, hn⟩
    next => cases h
  | cons c cs ih =>
    rw [takeBytes?] at h
    split at h
    next hn =>
      cases h
      exact ⟨⟨c :: cs, rfl⟩, hn⟩
    next =>
      split at h
      next hc =>
        obtain ⟨part, hpart, rfl⟩ := Option.map_eq_some_iff.mp h
        obtain ⟨⟨after, rfl⟩, hn⟩ := ih hpart
        exact ⟨⟨after, rfl⟩, by simp only [bytes]; omega⟩
      next => cases h

theorem eq_append_of_dropBytes? {n : Nat} {cs after : List Char}
    (h : dropBytes? n cs = some after) : ∃ before, cs = before ++ after ∧ n = bytes before := by
  induction cs generalizing n with
  | nil =>
    rw [dropBytes?] at h
    split at h
    next hn =>
      cases h
      exact ⟨[], rfl, hn⟩
    next => cases h
  | cons c cs ih =>
    rw [dropBytes?] at h
    split at h
    next hn =>
      cases h
      exact ⟨[], rfl, hn⟩
    next =>
      split at h
      next hc =>
        obtain ⟨before, rfl, hn⟩ := ih h
        exact ⟨c :: before, rfl, by simp only [bytes]; omega⟩
      next => cases h

/-- Where a slice lies in its text. -/
theorem eq_append_of_slice? {start stop : Nat} {cs part : List Char}
    (h : slice? start stop cs = some part) :
    ∃ before after, cs = before ++ part ++ after ∧ start = bytes before ∧
      stop = bytes before + bytes part := by
  unfold slice? at h
  split at h
  next hle =>
    obtain ⟨behind, hdrop, htake⟩ := Option.bind_eq_some_iff.mp h
    obtain ⟨before, rfl, hstart⟩ := eq_append_of_dropBytes? hdrop
    obtain ⟨⟨after, rfl⟩, hlength⟩ := eq_append_of_takeBytes? htake
    exact ⟨before, after, (List.append_assoc ..).symm, hstart, by omega⟩
  next => cases h

/-- Two slices, one right behind the other, are one. -/
theorem slice?_trans {start middle stop : Nat} {cs a b : List Char}
    (ha : slice? start middle cs = some a) (hb : slice? middle stop cs = some b) :
    slice? start stop cs = some (a ++ b) := by
  obtain ⟨before, after, rfl, rfl, rfl⟩ := eq_append_of_slice? ha
  obtain ⟨before', after', hcs, hmiddle, rfl⟩ := eq_append_of_slice? hb
  have hsame : before ++ a = before' := by
    have htake := takeBytes?_append (before ++ a) after
    rw [hcs, bytes_append, hmiddle, List.append_assoc, takeBytes?_append] at htake
    exact (Option.some.inj htake).symm
  have htext : before ++ a ++ after = before ++ (a ++ b) ++ after' := by
    rw [hcs, ← hsame]
    simp only [List.append_assoc]
  rw [htext, ← hmiddle, Nat.add_assoc, ← bytes_append]
  exact slice?_append before (a ++ b) after'

end GraphLanguages.Text
