import GraphLanguages.Proofs.Transport.Encoding
import GraphLanguages.Proofs.Transport.Header

/-! What was framed is read back.

A *frame* is a head and a body. Its head is any number of blank lines, then a line that tells how
many bytes the body has among lines that have nothing to do with it, and then a blank line; each
of them ends in a line feed, with a carriage return in front of it or without. Nothing is asked of
the body: it may be empty, and its bytes may look like header lines.

A header line is read by one step, which does not see how the line ends (`readFrom_line`). The
steps of a head lead to its body, in front of anything (`Frame.readFrame_append`), and so the
bodies of a stream are read one after the other (`reads_flatMap`). The calls that do so always
come to an end (`readFrames_eq_iff`). -/
namespace GraphLanguages.Transport
open Text Unicode

/-! ### Lines -/

/-- What a header line makes of what stands behind it. -/
def behindLine (known : Option Nat) (line : List Char) (rest : List UInt8) : FrameResult :=
  if isBlank line then
    match known with
    | some n => takeBody n rest
    | none => readFrom none rest
  else
    match Header.ofLine line with
    | .length n => readFrom (some n) rest
    | .badLength => .failed .invalidData rest
    | .other => readFrom known rest

section
variable {line : List Char} (known : Option Nat) (rest : List UInt8)

/-- The first line of a stream is taken off and decoded. -/
theorem exists_first_line (hline : '\n' ∉ line) :
    ∃ b bs, utf8 (line ++ ['\n']) ++ rest = b :: bs ∧
      takeLine (b :: bs) = (utf8 (line ++ ['\n']), rest) := by
  have htake := takeLine_utf8 hline rest
  cases hstream : utf8 (line ++ ['\n']) ++ rest with
  | nil =>
    have hnil := (List.append_eq_nil_iff.mp hstream).1
    exact absurd (utf8_eq_nil.mp hnil) (by simp)
  | cons b bs => exact ⟨b, bs, rfl, by rw [← hstream, htake]⟩

theorem readFrom_line (hline : '\n' ∉ line) :
    readFrom known (utf8 (line ++ ['\n']) ++ rest) = behindLine known line rest := by
  obtain ⟨b, bs, hstream, htake⟩ := exists_first_line rest hline
  rw [hstream, readFrom.eq_def]
  simp only [htake, decode?_utf8, trimEnd_concat (show isSpace '\n' from rfl), isEmpty_trimEnd,
    ofLine_trimEnd]
  rfl

theorem behindLine_concat {c : Char} (h : isSpace c) :
    behindLine known (line ++ [c]) rest = behindLine known line rest := by
  have hline : Header.ofLine (line ++ [c]) = Header.ofLine line := by
    rw [← ofLine_trimEnd, trimEnd_concat h, ofLine_trimEnd]
  simp only [behindLine, isBlank_concat h, hline]

theorem behindLine_none (h : isBlank line = true) :
    behindLine none line rest = readFrom none rest :=
  if_pos h

theorem behindLine_some (h : isBlank line = true) (n : Nat) :
    behindLine (some n) line rest = takeBody n rest :=
  if_pos h

theorem Unrelated.behindLine_eq (h : Unrelated line) :
    behindLine known line rest = readFrom known rest := by
  obtain ⟨hblank, hother⟩ := unrelated_iff.mp h
  simp only [behindLine, hblank, hother, Bool.false_eq_true, if_false]

theorem TellsLength.behindLine_eq {n : Nat} (h : TellsLength n line) (hn : n ≤ maxWord) :
    behindLine known line rest = readFrom (some n) rest := by
  simp only [behindLine, h.not_blank, h.ofLine_eq hn, Bool.false_eq_true, if_false]

end

/-- A line of this kind with its end. -/
structure IsLine (P : List Char → Prop) (text : List Char) : Prop where
  split : ∃ line ending, text = line ++ ending ∧ '\n' ∉ line ∧ P line ∧
    (ending = ['\n'] ∨ ending = ['\r', '\n'])

theorem IsLine.exists_readFrom {P : List Char → Prop} {text : List Char} (h : IsLine P text) :
    ∃ line, P line ∧
      ∀ known rest, readFrom known (utf8 text ++ rest) = behindLine known line rest := by
  obtain ⟨line, ending, rfl, hline, hP, rfl | rfl⟩ := h.split
  · exact ⟨line, hP, fun known rest => readFrom_line known rest hline⟩
  · refine ⟨line, hP, fun known rest => ?_⟩
    have hreturn : '\n' ∉ line ++ ['\r'] := by simp [hline]
    have hsplit : line ++ ['\r', '\n'] = (line ++ ['\r']) ++ ['\n'] := by simp
    rw [hsplit, readFrom_line known rest hreturn, behindLine_concat known rest rfl]

theorem readFrom_blank {text : List Char} (h : IsLine (isBlank · = true) text)
    (rest : List UInt8) : readFrom none (utf8 text ++ rest) = readFrom none rest := by
  obtain ⟨line, hline, hread⟩ := h.exists_readFrom
  rw [hread, behindLine_none rest hline]

theorem readFrom_unrelated {text : List Char} (h : IsLine Unrelated text) (known : Option Nat)
    (rest : List UInt8) : readFrom known (utf8 text ++ rest) = readFrom known rest := by
  obtain ⟨line, hline, hread⟩ := h.exists_readFrom
  rw [hread, hline.behindLine_eq]

/-- Lines that change nothing are passed over. -/
theorem readFrom_flatten {known : Option Nat} {lines : List (List Char)}
    (h : ∀ text ∈ lines, ∀ rest, readFrom known (utf8 text ++ rest) = readFrom known rest)
    (rest : List UInt8) : readFrom known (utf8 lines.flatten ++ rest) = readFrom known rest := by
  induction lines with
  | nil => rfl
  | cons text lines ih =>
    obtain ⟨htext, hlines⟩ := List.forall_mem_cons.mp h
    rw [List.flatten_cons, utf8_append, List.append_assoc, htext, ih hlines]

/-! ### Frames -/

/-- The lines in front of a body of this length. -/
structure Head (n : Nat) where
  blanks : List (List Char)
  before : List (List Char)
  length : List Char
  after : List (List Char)
  last : List Char
  blanks_blank : ∀ text ∈ blanks, IsLine (isBlank · = true) text
  before_unrelated : ∀ text ∈ before, IsLine Unrelated text
  length_tells : IsLine (TellsLength n) length
  after_unrelated : ∀ text ∈ after, IsLine Unrelated text
  last_blank : IsLine (isBlank · = true) last

def Head.text {n : Nat} (head : Head n) : List Char :=
  head.blanks.flatten ++ (head.before.flatten ++
    (head.length ++ (head.after.flatten ++ head.last)))

theorem Head.readFrame_append {n : Nat} (head : Head n) (hn : n ≤ maxWord) (rest : List UInt8) :
    readFrame (utf8 head.text ++ rest) = takeBody n rest := by
  have hblanks : ∀ text ∈ head.blanks, ∀ rest,
      readFrom none (utf8 text ++ rest) = readFrom none rest :=
    fun text htext => readFrom_blank (head.blanks_blank text htext)
  have hbefore : ∀ text ∈ head.before, ∀ rest,
      readFrom none (utf8 text ++ rest) = readFrom none rest :=
    fun text htext => readFrom_unrelated (head.before_unrelated text htext) none
  have hafter : ∀ text ∈ head.after, ∀ rest,
      readFrom (some n) (utf8 text ++ rest) = readFrom (some n) rest :=
    fun text htext => readFrom_unrelated (head.after_unrelated text htext) (some n)
  obtain ⟨told, htold, hlength⟩ := head.length_tells.exists_readFrom
  obtain ⟨line, hline, hlast⟩ := head.last_blank.exists_readFrom
  simp only [readFrame, Head.text, utf8_append, List.append_assoc]
  rw [readFrom_flatten hblanks, readFrom_flatten hbefore, hlength, htold.behindLine_eq _ _ hn,
    readFrom_flatten hafter, hlast, behindLine_some rest hline]

/-- A body with the lines in front of it. It has at most as many bytes as a machine can
address. -/
structure Frame where
  body : List UInt8
  head : Head body.length
  length_le : body.length ≤ maxWord

namespace Frame

def bytes (frame : Frame) : List UInt8 :=
  utf8 frame.head.text ++ frame.body

theorem readFrame_append (frame : Frame) (rest : List UInt8) :
    readFrame (frame.bytes ++ rest) = .frame frame.body rest := by
  rw [bytes, List.append_assoc, frame.head.readFrame_append frame.length_le, takeBody,
    if_pos (by simp), List.take_left, List.drop_left]

/-- A body that is cut is not given. -/
theorem readFrame_cut (frame : Frame) {part missing : List UInt8}
    (hbody : frame.body = part ++ missing) (hmissing : missing ≠ []) :
    readFrame (utf8 frame.head.text ++ part) = .failed .unexpectedEnd [] := by
  have hshort : ¬frame.body.length ≤ part.length := by
    have := List.length_pos_iff.mpr hmissing
    rw [hbody, List.length_append]
    omega
  rw [frame.head.readFrame_append frame.length_le, takeBody, if_neg hshort]

end Frame

/-! ### Streams -/

/-- What call after call reads from a stream, until one finds its end or fails. -/
inductive Reads : (stream : List UInt8) → Frames → Prop
  | finished {stream : List UInt8} : readFrame stream = .finished → Reads stream ⟨[], none, []⟩
  | failed {stream rest : List UInt8} {error : StreamError} :
      readFrame stream = .failed error rest → Reads stream ⟨[], some error, rest⟩
  | frame {stream body rest : List UInt8} {later : Frames} :
      readFrame stream = .frame body rest → Reads rest later →
      Reads stream { later with bodies := body :: later.bodies }

theorem reads_flatMap (frames : List Frame) {rest : List UInt8} {later : Frames}
    (h : Reads rest later) :
    Reads (frames.flatMap Frame.bytes ++ rest)
      { later with bodies := frames.map Frame.body ++ later.bodies } := by
  induction frames with
  | nil => exact h
  | cons frame frames ih =>
    rw [List.flatMap_cons, List.append_assoc]
    exact .frame (frame.readFrame_append _) ih

theorem reads_frames (frames : List Frame) :
    Reads (frames.flatMap Frame.bytes) ⟨frames.map Frame.body, none, []⟩ := by
  have hend : Reads [] ⟨[], none, []⟩ := .finished (by rw [readFrame, readFrom])
  have hreads := reads_flatMap frames hend
  rwa [List.append_nil, List.append_nil] at hreads

/-- What is read is a matter of the stream. -/
theorem Reads.unique {stream : List UInt8} {a b : Frames} (ha : Reads stream a)
    (hb : Reads stream b) : a = b := by
  induction ha generalizing b with
  | finished h =>
    cases hb with
    | finished => rfl
    | failed h' | frame h' => cases h.symm.trans h'
  | failed h =>
    cases hb with
    | failed h' => cases h.symm.trans h'; rfl
    | finished h' | frame h' => cases h.symm.trans h'
  | frame h _ ih =>
    cases hb with
    | frame h' hlater => cases h.symm.trans h'; rw [ih hlater]
    | finished h' | failed h' => cases h.symm.trans h'

theorem length_rest_le_of_takeBody {n : Nat} {stream body rest : List UInt8}
    (h : takeBody n stream = .frame body rest) : rest.length ≤ stream.length := by
  rw [takeBody] at h
  split at h
  next =>
    cases h
    exact List.length_drop ▸ Nat.sub_le ..
  next => cases h

/-- A frame takes a byte at least: its first line does. -/
theorem length_rest_lt_of_readFrom {known : Option Nat} {stream body rest : List UInt8}
    (h : readFrom known stream = .frame body rest) : rest.length < stream.length := by
  fun_induction readFrom known stream with
  | case1 | case2 | case6 => cases h
  | case3 b bs =>
    exact Nat.lt_of_le_of_lt (length_rest_le_of_takeBody h) (length_rest_lt b bs)
  | case4 b bs _ _ _ _ _ ih => exact (ih h).trans (length_rest_lt b bs)
  | case5 _ b bs _ _ _ _ _ _ _ ih | case7 _ b bs _ _ _ _ _ _ ih =>
    exact (ih h).trans (length_rest_lt b bs)

theorem reads_readFramesFrom {fuel : Nat} {stream : List UInt8} (h : stream.length < fuel) :
    Reads stream (readFramesFrom fuel stream) := by
  induction fuel generalizing stream with
  | zero => exact absurd h (Nat.not_lt_zero _)
  | succ fuel ih =>
    rw [readFramesFrom]
    cases hread : readFrame stream with
    | finished => exact .finished hread
    | failed error rest => exact .failed hread
    | frame body rest =>
      have hrest : rest.length < stream.length := length_rest_lt_of_readFrom hread
      exact .frame hread (ih (by omega))

/-- The calls come to an end, whatever the stream. -/
theorem readFrames_eq_iff {stream : List UInt8} {frames : Frames} :
    readFrames stream = frames ↔ Reads stream frames := by
  have hreads : Reads stream (readFrames stream) := reads_readFramesFrom (Nat.lt_succ_self _)
  exact ⟨fun h => h ▸ hreads, hreads.unique⟩

/-! ### Written frames -/

def lengthName : List Char := "Content-Length".toList

/-- The header line that is written for a body. -/
def lengthLine (n : Nat) : List Char :=
  lengthName ++ ':' :: ' ' :: Nat.toDigits 10 n

theorem lineFeed_not_mem_lengthLine (n : Nat) : '\n' ∉ lengthLine n := by
  intro h
  have hname : '\n' ∉ lengthName := by decide
  simp only [lengthLine, List.mem_append, List.mem_cons, hname, false_or] at h
  rcases h with h | h | h
  · cases h
  · cases h
  · exact absurd (isDigit_of_mem_numeral h) (by decide)

theorem tellsLength_lengthLine (n : Nat) : TellsLength n (lengthLine n) where
  split := by
    have hname : NamesLength lengthName := namesLength_iff.mpr (by decide)
    exact ⟨lengthName, [' '], Nat.toDigits 10 n, [], by simp [lengthLine], hname, rfl,
      isNumeral_toDigits n, rfl⟩

/-- The lines that are written in front of a body. -/
def Head.written (n : Nat) : Head n where
  blanks := []
  before := []
  length := lengthLine n ++ ['\r', '\n']
  after := []
  last := ['\r', '\n']
  blanks_blank := nofun
  before_unrelated := nofun
  length_tells :=
    ⟨_, _, rfl, lineFeed_not_mem_lengthLine n, tellsLength_lengthLine n, .inr rfl⟩
  after_unrelated := nofun
  last_blank := ⟨[], _, rfl, List.not_mem_nil, rfl, .inr rfl⟩

theorem Head.text_written (n : Nat) :
    (Head.written n).text = ("Content-Length: " ++ toString n ++ "\r\n\r\n").toList := by
  have hname : "Content-Length: ".toList = lengthName ++ [':', ' '] := by decide
  have hend : "\r\n\r\n".toList = ['\r', '\n', '\r', '\n'] := by decide
  simp [Head.text, Head.written, lengthLine, hname, hend]

/-- The frame that is written for a body. -/
def Frame.written (body : List UInt8) (h : body.length ≤ maxWord) : Frame :=
  ⟨body, .written body.length, h⟩

theorem Frame.bytes_written {body : List UInt8} (h : body.length ≤ maxWord) :
    (Frame.written body h).bytes = writeFrame body := by
  rw [bytes, written, Head.text_written, writeFrame, encode_eq]

theorem exists_frames {bodies : List (List UInt8)} (h : ∀ body ∈ bodies, body.length ≤ maxWord) :
    ∃ frames : List Frame, frames.map Frame.body = bodies ∧
      frames.flatMap Frame.bytes = bodies.flatMap writeFrame := by
  induction bodies with
  | nil => exact ⟨[], rfl, rfl⟩
  | cons body bodies ih =>
    obtain ⟨hbody, hbodies⟩ := List.forall_mem_cons.mp h
    obtain ⟨frames, hmap, hbytes⟩ := ih hbodies
    refine ⟨.written body hbody :: frames, ?_, ?_⟩
    · rw [List.map_cons, hmap]
      rfl
    · rw [List.flatMap_cons, List.flatMap_cons, hbytes, Frame.bytes_written]

theorem readFrames_flatMap_writeFrame {bodies : List (List UInt8)}
    (h : ∀ body ∈ bodies, body.length ≤ maxWord) :
    readFrames (bodies.flatMap writeFrame) = ⟨bodies, none, []⟩ := by
  obtain ⟨frames, hmap, hbytes⟩ := exists_frames h
  rw [readFrames_eq_iff, ← hbytes, ← hmap]
  exact reads_frames frames

/-! ### Any frames -/

/-- **The bodies of a stream are read as they were framed, whatever their heads look like**: one
by each call, in order, and then the end. From a stream that is cut inside a body the bodies in
front of it are read, and then there is an error. -/
theorem stream_read (frames : List Frame) :
    Reads (frames.flatMap Frame.bytes) ⟨frames.map Frame.body, none, []⟩ ∧
      ∀ (last : Frame) (part missing : List UInt8),
        last.body = part ++ missing → missing ≠ [] →
        Reads (frames.flatMap Frame.bytes ++ (utf8 last.head.text ++ part))
          ⟨frames.map Frame.body, some .unexpectedEnd, []⟩ := by
  constructor
  · exact reads_frames frames
  · intro last part missing hbody hmissing
    have hcut := reads_flatMap frames (.failed (last.readFrame_cut hbody hmissing))
    rwa [List.append_nil] at hcut

/-- Behind a blank line the length stands between other headers, in letters of both cases and
with spaces around it, and the lines end in either way. -/
def Head.mixed : Head 6 where
  blanks := ["\r\n".toList]
  before := ["Via\n".toList]
  length := "content-LENGTH : 6 \r\n".toList
  after := ["X-Length: 7\r\n".toList]
  last := ['\n']
  blanks_blank :=
    List.forall_mem_singleton.mpr ⟨[], ['\r', '\n'], by decide, by decide, by decide, .inr rfl⟩
  before_unrelated :=
    List.forall_mem_singleton.mpr ⟨"Via".toList, ['\n'], by decide, by decide, by decide, .inl rfl⟩
  length_tells := by
    have hname : NamesLength "content-LENGTH ".toList := namesLength_iff.mpr (by decide)
    have hline : TellsLength 6 "content-LENGTH : 6 ".toList :=
      ⟨_, [' '], ['6'], [' '], by decide, hname, rfl, isNumeral_toDigits 6, rfl⟩
    exact ⟨_, ['\r', '\n'], by decide, by decide, hline, .inr rfl⟩
  after_unrelated :=
    List.forall_mem_singleton.mpr
      ⟨"X-Length: 7".toList, ['\r', '\n'], by decide, by decide, by decide, .inr rfl⟩
  last_blank := ⟨[], ['\n'], by decide, by decide, by decide, .inl rfl⟩

/-- A body that looks like a header, an empty one, and one whose last byte is missing. -/
theorem stream_read_mixed :
    let first := "\r\nVia\ncontent-LENGTH : 6 \r\nX-Length: 7\r\n\nA: b\r\n".toList
    let second := "Content-Length: 0\r\n\r\n".toList
    let third := "Content-Length: 3\r\n\r\n".toList
    let body : List UInt8 := [65, 58, 32, 98, 13, 10]
    [1, 2, 3] = [1, 2] ++ [3] ∧ [3] ≠ [] ∧
      Reads (utf8 (first ++ second)) ⟨[body, []], none, []⟩ ∧
      Reads (utf8 (first ++ second ++ third) ++ [1, 2]) ⟨[body, []], some .unexpectedEnd, []⟩ := by
  intro first second third body
  have hread := stream_read [⟨body, .mixed, by decide⟩, .written [] (by decide)]
  have hmissing := hread.2 (.written [1, 2, 3] (by decide)) [1, 2] [3] rfl (by decide)
  have hbytes : [⟨body, .mixed, by decide⟩, Frame.written [] (by decide)].flatMap Frame.bytes =
      utf8 (first ++ second) := by decide
  have hthird : (Frame.written [1, 2, 3] (by decide)).head.text = third := by decide
  rw [hbytes] at hread hmissing
  rw [hthird, ← List.append_assoc, ← utf8_append] at hmissing
  exact ⟨rfl, by decide, hread.1, hmissing⟩

end GraphLanguages.Transport
