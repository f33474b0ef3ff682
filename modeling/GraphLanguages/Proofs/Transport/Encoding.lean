import Mathlib.Data.List.SplitBy
import GraphLanguages.Text.Bytes
import GraphLanguages.Transport.Frame

/-! The bytes of texts.

Encoding goes character by character (`encode_eq`), and bytes are decoded to a text exactly
if they are its encoding (`decode?_eq_some_iff`). A line feed is the byte of the character
and occurs in no other one (`lineFeed_mem_utf8`), so bytes and texts have the same lines. -/
namespace GraphLanguages.Transport
open Text

/-! ### Encoding -/

def utf8 (cs : List Char) : List UInt8 :=
  cs.flatMap String.utf8EncodeChar

theorem utf8_append (as bs : List Char) : utf8 (as ++ bs) = utf8 as ++ utf8 bs :=
  List.flatMap_append ..

theorem utf8_cons (c : Char) (cs : List Char) : utf8 (c :: cs) = String.utf8EncodeChar c ++ utf8 cs :=
  List.flatMap_cons ..

theorem length_utf8 (cs : List Char) : (utf8 cs).length = bytes cs := by
  induction cs with
  | nil => rfl
  | cons c cs ih => rw [utf8_cons, List.length_append, String.length_utf8EncodeChar, ih, bytes]

theorem utf8_eq_nil {cs : List Char} : utf8 cs = [] ↔ cs = [] := by
  refine ⟨fun h => ?_, fun h => h ▸ rfl⟩
  cases cs with
  | nil => rfl
  | cons c cs =>
    exact absurd (List.append_eq_nil_iff.mp h).1 String.utf8EncodeChar_ne_nil

theorem toList_loop (array : ByteArray) (i : Nat) (done : List UInt8) :
    ByteArray.toList.loop array i done = done.reverse ++ array.data.toList.drop i := by
  fun_induction ByteArray.toList.loop array i done with
  | case1 i done hi ih =>
    have hlength : i < array.data.toList.length := hi
    have hget : array.get! i = array.data.toList[i] := by
      obtain ⟨data⟩ := array
      exact getElem!_pos data i hi
    rw [ih, List.drop_eq_getElem_cons hlength, hget, List.reverse_cons, List.append_assoc]
    rfl
  | case2 i done hi =>
    have hlength : array.data.toList.length ≤ i := Nat.le_of_not_lt hi
    rw [List.drop_eq_nil_of_le hlength, List.append_nil]

theorem toList_toByteArray (bs : List UInt8) : bs.toByteArray.toList = bs := by
  rw [ByteArray.toList, toList_loop, List.data_toByteArray]
  rfl

theorem encode_eq (s : String) : encode s = utf8 s.toList := by
  rw [encode, String.toUTF8_eq_toByteArray, ← String.utf8Encode_toList, List.utf8Encode,
    toList_toByteArray, utf8]

theorem encode_ofList (cs : List Char) : encode (String.ofList cs) = utf8 cs := by
  rw [encode_eq, String.toList_ofList]

/-! ### Decoding -/

theorem decode?_utf8 (cs : List Char) : decode? (utf8 cs) = some cs := by
  have harray : ByteArray.mk (utf8 cs).toArray = cs.utf8Encode := by
    rw [List.utf8Encode]
    exact ByteArray.ext List.data_toByteArray.symm
  rw [decode?, harray, List.utf8Decode?_utf8Encode]
  simp

theorem decode?_eq_some_iff {bs : List UInt8} {cs : List Char} :
    decode? bs = some cs ↔ bs = utf8 cs := by
  refine ⟨fun h => ?_, fun h => h ▸ decode?_utf8 cs⟩
  obtain ⟨array, harray, rfl⟩ := Option.map_eq_some_iff.mp h
  have hsome : (ByteArray.mk bs.toArray).utf8Decode?.isSome := by rw [harray]; rfl
  have hencode := @ByteArray.utf8Encode_get_utf8Decode? _ hsome
  simp only [harray, Option.get_some] at hencode
  have hdata := congrArg (fun a => a.data.toList) hencode
  rw [List.utf8Encode] at hdata
  simpa [List.data_toByteArray, utf8] using hdata.symm

/-! ### Lines -/

theorem lineFeed_mem_utf8EncodeChar {c : Char} :
    lineFeed ∈ String.utf8EncodeChar c ↔ c = '\n' := by
  have hfeed : ∀ n, lineFeed = UInt8.ofNat n ↔ n % 256 = 10 := fun n => by
    rw [← UInt8.toNat_inj, UInt8.toNat_ofNat', eq_comm]
    rfl
  have hchar : c = '\n' ↔ c.val.toNat = 10 := by
    rw [← Char.toNat_inj]
    rfl
  rw [hchar, String.utf8EncodeChar]
  split <;> (try split) <;> (try split) <;>
    simp only [List.mem_cons, List.not_mem_nil, or_false, hfeed] <;> omega

theorem lineFeed_mem_utf8 {cs : List Char} : lineFeed ∈ utf8 cs ↔ '\n' ∈ cs := by
  simp only [utf8, List.mem_flatMap, lineFeed_mem_utf8EncodeChar, exists_eq_right]

theorem takeLine_of_mem {line : List UInt8} (h : lineFeed ∉ line) (rest : List UInt8) :
    takeLine (line ++ lineFeed :: rest) = (line ++ [lineFeed], rest) := by
  induction line with
  | nil => rfl
  | cons b line ih =>
    rw [List.mem_cons, not_or] at h
    rw [List.cons_append, takeLine, if_neg (Ne.symm h.1), ih h.2]
    rfl

theorem takeLine_of_not_mem {line : List UInt8} (h : lineFeed ∉ line) :
    takeLine line = (line, []) := by
  induction line with
  | nil => rfl
  | cons b line ih =>
    rw [List.mem_cons, not_or] at h
    rw [takeLine, if_neg (Ne.symm h.1), ih h.2]

/-- The first line of a text whose encoding goes on with any bytes. -/
theorem takeLine_utf8 {line : List Char} (h : '\n' ∉ line) (rest : List UInt8) :
    takeLine (utf8 (line ++ ['\n']) ++ rest) = (utf8 (line ++ ['\n']), rest) := by
  have hfeed : utf8 ['\n'] = [lineFeed] := rfl
  rw [utf8_append, hfeed, List.append_assoc]
  exact takeLine_of_mem (mt lineFeed_mem_utf8.mp h) rest

end GraphLanguages.Transport
