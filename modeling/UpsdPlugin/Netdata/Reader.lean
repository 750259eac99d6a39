import UpsdPlugin.Lib.Framing
import UpsdPlugin.Status

/-! The buffers between the plugin's pipe and Netdata's parser.

`buffered_reader_read` reads the pipe into a fixed buffer, and `buffered_reader_next_line` copies
what has arrived up to a newline into one that grows. What a wait on the pipe gives is a `Poll`.

A copy takes a whole line if there is one (`nextLine_found`) and everything if there is none
(`nextLine_open`); there is always space for it (`needBytes_unread`), and a read always finds the
fixed buffer empty (`read_empty`). -/
namespace UpsdPlugin

/-- `COMPRESSION_MAX_MSG_SIZE - 768` -/
def pluginsdLineMax : Nat := 0x4000 - 128 - 1 - 768

/-- `BUFFER`: the text, without its NUL, and the space there is for it. -/
structure LineBuffer where
  text : CStr := []
  size : Nat

namespace LineBuffer

/-- `buffer_increase` -/
def increase (b : LineBuffer) (freeSizeRequired : Nat) : LineBuffer :=
  let remaining := b.size - b.text.length
  if freeSizeRequired ≤ remaining then b
  else
    let increase := max 1024 (freeSizeRequired - remaining)
    let optimal := if 5 * 1024 * 1024 < b.size then b.size / 2 else b.size
    {b with size := b.size + max optimal increase}

/-- `buffer_need_bytes` -/
def needBytes (b : LineBuffer) (neededFreeSize : Nat) : LineBuffer :=
  if b.size ≤ b.text.length + neededFreeSize then b.increase (neededFreeSize + 1) else b

/-- The text fits. -/
def Fits (b : LineBuffer) : Prop := b.text.length ≤ b.size

theorem needBytes_text (b : LineBuffer) (n : Nat) : (b.needBytes n).text = b.text := by
  unfold needBytes increase
  dsimp only
  split
  · split <;> rfl
  · rfl

/-- There is space then for what is needed. -/
theorem needBytes_space {b : LineBuffer} (h : b.Fits) (n : Nat) : b.text.length + n < (b.needBytes n).size := by
  unfold Fits at h
  unfold needBytes increase
  dsimp only
  split
  · split
    · omega
    · dsimp only
      omega
  · omega

end LineBuffer

/-- `struct buffered_reader`: the bytes that have been read, and up to where they have been copied. -/
structure BufferedReader where
  readBuffer : CStr := []
  pos : Nat := 0

/-- What goes wrong in a wait on the pipe. -/
inductive PollError where
  | err
  | hup
  | nval
  | unknown
  | timeout
  | cancelled
  deriving DecidableEq

/-- `buffered_reader_ret_t` -/
inductive ReadRet where
  | ok
  | failed
  | bufferFull
  | poll (error : PollError)
  deriving DecidableEq

/-- What a wait on the pipe gives. -/
inductive Poll where
  /-- There is something to read, and `read` takes `n + 1` bytes of it at most. -/
  | ready (n : Nat)
  /-- There is something to read, and `read` fails. -/
  | unreadable
  | fails (error : PollError)

namespace BufferedReader

/-- `buffered_reader_read`, with the bytes in the pipe; `none` for a `read` that fails. -/
def read (reader : BufferedReader) (pipe : CStr) (n : Option Nat) : ReadRet × BufferedReader × CStr :=
  let remaining := pluginsdLineMax + 1 - reader.readBuffer.length - 1
  if remaining = 0 then (.bufferFull, reader, pipe)
  else
    match n with
    | none => (.failed, reader, pipe)
    | some n =>
      let bytes := pipe.take (min (n + 1) remaining)
      -- The end of the file.
      if bytes = [] then (.failed, reader, pipe)
      else (.ok, {reader with readBuffer := reader.readBuffer ++ bytes}, pipe.drop bytes.length)

/-- `buffered_reader_read_timeout` -/
def readTimeout (reader : BufferedReader) (pipe : CStr) : Poll → ReadRet × BufferedReader × CStr
  | .ready n => reader.read pipe (some n)
  | .unreadable => reader.read pipe none
  | .fails error => (.poll error, reader, pipe)

/-- What has been read and not been copied. -/
def unread (reader : BufferedReader) : CStr := reader.readBuffer.drop reader.pos

/-- How many of the unread bytes are copied into the space there is, and whether a newline ends them. -/
def bytesToCopy (unread : CStr) (space : Nat) : Nat × Bool :=
  let (bytesToCopy, foundNewline) :=
    match unread.findIdx? (· = '\n') with
    | none => (unread.length, false)
    | some nextNewline => (nextNewline + 1, true)
  if space < bytesToCopy then (space, false) else (bytesToCopy, foundNewline)

/-- `buffered_reader_next_line` -/
def nextLine (reader : BufferedReader) (dst : LineBuffer) : Bool × BufferedReader × LineBuffer :=
  let dst := dst.needBytes (reader.readBuffer.length - reader.pos + 2)
  if reader.readBuffer.length ≤ reader.pos then (false, {}, dst)
  else
    let copy := bytesToCopy reader.unread (dst.size - dst.text.length - 2)
    let dst := {dst with text := dst.text ++ reader.unread.take copy.1}
    if copy.2 then (true, {reader with pos := reader.pos + copy.1}, dst) else (false, {}, dst)

theorem bytesToCopy_open {unread : CStr} {space : Nat} (hopen : '\n' ∉ unread) (hspace : unread.length ≤ space) :
    bytesToCopy unread space = (unread.length, false) := by
  unfold bytesToCopy
  rw [findIdx?_of_not_mem hopen]
  exact if_neg (Nat.not_lt.mpr hspace)

theorem bytesToCopy_found {body rest : CStr} {space : Nat} (hbody : '\n' ∉ body) (hspace : body.length < space) :
    bytesToCopy (body ++ '\n' :: rest) space = (body.length + 1, true) := by
  have hfound : (body ++ '\n' :: rest).findIdx? (· = '\n') = some body.length := by
    simp [List.findIdx?_append, List.findIdx?_cons, findIdx?_of_not_mem hbody]
  unfold bytesToCopy
  rw [hfound]
  exact if_neg (Nat.not_lt.mpr hspace)

/-- A newline is copied with what it ends. -/
theorem bytesToCopy_pos {unread : CStr} {space : Nat} (h : (bytesToCopy unread space).2 = true) :
    0 < (bytesToCopy unread space).1 := by
  unfold bytesToCopy at h ⊢
  cases hfound : unread.findIdx? (· = '\n') with
  | none =>
    rw [hfound] at h
    dsimp only at h
    split at h <;> cases h
  | some i =>
    rw [hfound] at h
    dsimp only at h ⊢
    split at h
    · cases h
    · next hspace =>
      rw [if_neg hspace]
      exact Nat.succ_pos i

variable {reader : BufferedReader} {dst : LineBuffer}

/-- There is space for all that is unread. -/
theorem needBytes_unread (reader : BufferedReader) (h : dst.Fits) :
    ∃ grown : LineBuffer, dst.needBytes (reader.readBuffer.length - reader.pos + 2) = grown ∧
      grown.text = dst.text ∧ grown.text.length + (reader.unread.length + 2) < grown.size := by
  refine ⟨_, rfl, dst.needBytes_text _, ?_⟩
  rw [dst.needBytes_text, show reader.unread.length = reader.readBuffer.length - reader.pos from List.length_drop]
  exact LineBuffer.needBytes_space h _

/-- Without a newline everything is copied, and the buffer is empty. -/
theorem nextLine_open (h : dst.Fits) (hopen : '\n' ∉ reader.unread) :
    ∃ dst', reader.nextLine dst = (false, {}, dst') ∧ dst'.text = dst.text ++ reader.unread ∧ dst'.Fits := by
  obtain ⟨grown, hgrown, htext, hspace⟩ := reader.needBytes_unread h
  unfold nextLine
  rw [hgrown]
  dsimp only
  split
  · next hempty =>
    have hnil : reader.unread = [] := List.drop_of_length_le hempty
    refine ⟨grown, rfl, by rw [htext, hnil, List.append_nil], ?_⟩
    unfold LineBuffer.Fits
    omega
  · rw [bytesToCopy_open hopen (by omega), List.take_length]
    refine ⟨_, rfl, by rw [htext], ?_⟩
    unfold LineBuffer.Fits
    simp only [List.length_append]
    omega

/-- Up to a newline the line is copied, and the rest stays. -/
theorem nextLine_found (h : dst.Fits) {body rest : CStr} (hbody : '\n' ∉ body)
    (hunread : reader.unread = body ++ '\n' :: rest) :
    ∃ reader' dst', reader.nextLine dst = (true, reader', dst') ∧ reader'.unread = rest ∧
      reader'.readBuffer = reader.readBuffer ∧ dst'.text = dst.text ++ (body ++ ['\n']) ∧ dst'.Fits := by
  obtain ⟨grown, hgrown, htext, hspace⟩ := reader.needBytes_unread h
  have hlength : reader.unread.length = reader.readBuffer.length - reader.pos := List.length_drop
  have hsplit : reader.unread = (body ++ ['\n']) ++ rest := by
    rw [hunread]
    simp
  have htake : reader.unread.take (body.length + 1) = body ++ ['\n'] := by
    rw [hsplit]
    exact List.take_left' List.length_append
  have hlt : body.length + 1 ≤ reader.unread.length := by
    rw [hunread]
    simp
  have hcopy : bytesToCopy reader.unread (grown.size - grown.text.length - 2) = (body.length + 1, true) := by
    rw [hunread]
    exact bytesToCopy_found hbody (by omega)
  unfold nextLine
  rw [hgrown]
  dsimp only
  rw [if_neg (by omega), hcopy, htake]
  refine ⟨{reader with pos := reader.pos + (body.length + 1)}, _, rfl, ?_, rfl, by rw [htext], ?_⟩
  · show reader.readBuffer.drop (reader.pos + (body.length + 1)) = rest
    rw [← List.drop_drop]
    show reader.unread.drop (body.length + 1) = rest
    rw [hsplit]
    exact List.drop_left' List.length_append
  · unfold LineBuffer.Fits
    simp only [List.length_append, List.length_singleton]
    omega

/-- Every call takes something off what is unread, or leaves the buffer empty. -/
theorem nextLine_cases (reader : BufferedReader) (dst : LineBuffer) :
    (∃ reader' dst', reader.nextLine dst = (true, reader', dst') ∧ reader'.unread.length < reader.unread.length) ∨
      ∃ dst', reader.nextLine dst = (false, {}, dst') := by
  unfold nextLine
  generalize dst.needBytes (reader.readBuffer.length - reader.pos + 2) = grown
  dsimp only
  split
  · exact Or.inr ⟨_, rfl⟩
  · next hsome =>
    cases hfound : (bytesToCopy reader.unread (grown.size - grown.text.length - 2)).2 with
    | false => exact Or.inr ⟨_, rfl⟩
    | true =>
      have hpos := bytesToCopy_pos hfound
      refine Or.inl ⟨_, _, rfl, ?_⟩
      simp only [unread, List.length_drop] at hpos ⊢
      omega

/-- A read into the empty buffer: there is space for it, so nothing is read only at the end of the file. -/
theorem read_empty (pipe : CStr) (n : Nat) :
    (pipe = [] ∧ read {} pipe (some n) = (.failed, {}, pipe)) ∨
      ∃ bytes rest, bytes ≠ [] ∧ bytes.length ≤ pluginsdLineMax ∧ pipe = bytes ++ rest ∧
        read {} pipe (some n) = (.ok, {readBuffer := bytes}, rest) := by
  have hspace : ¬ pluginsdLineMax + 1 - ([] : CStr).length - 1 = 0 := by decide
  cases pipe with
  | nil =>
    refine Or.inl ⟨rfl, ?_⟩
    unfold read
    dsimp only
    rw [if_neg hspace, List.take_nil]
    rfl
  | cons c pipe =>
    have hpositive : ∃ k, min (n + 1) (pluginsdLineMax + 1 - ([] : CStr).length - 1) = k + 1 :=
      Nat.exists_eq_add_one_of_ne_zero (by omega)
    obtain ⟨k, hk⟩ := hpositive
    have hshort : k + 1 ≤ pluginsdLineMax := by
      rw [← hk]
      exact Nat.min_le_right _ _
    have hdrop : (c :: pipe).drop ((c :: pipe).take (k + 1)).length = (c :: pipe).drop (k + 1) := by
      rw [List.length_take]
      rcases Nat.le_total (k + 1) (c :: pipe).length with hle | hle
      · rw [Nat.min_eq_left hle]
      · rw [Nat.min_eq_right hle, List.drop_length, List.drop_of_length_le hle]
    refine Or.inr ⟨(c :: pipe).take (k + 1), (c :: pipe).drop (k + 1), by simp,
      Nat.le_trans (List.length_take_le _ _) hshort, (List.take_append_drop _ _).symm, ?_⟩
    unfold read
    dsimp only
    rw [if_neg hspace, hk, if_neg (by simp), hdrop]
    rfl

end BufferedReader

end UpsdPlugin
