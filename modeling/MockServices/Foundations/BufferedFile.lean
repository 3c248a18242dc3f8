import Mathlib.Data.List.Basic
import Mathlib.Logic.Function.Basic

/-!
# A file behind buffers

Several streams work on one file. What is written to a stream waits until
it is flushed, or the position is moved. What is read ahead stays as it was
when it was read: a position in it is reached without another look at the
file, so what another stream writes meanwhile is not seen. The file as the
user of a stream leaves it is its content with what waits put in place.
-/

namespace MockServices.Foundations

variable {α : Type*}

section Overwrite

variable [Zero α]

/-- The data put at the offset, and a gap before it filled with zeros. -/
def overwrite (content : List α) (offset : ℕ) (data : List α) : List α :=
  if data = [] then content
  else content.take offset ++ List.replicate (offset - content.length) 0 ++ data ++
    content.drop (offset + data.length)

@[simp] theorem overwrite_nil (content : List α) (offset : ℕ) :
    overwrite content offset [] = content := if_pos rfl

/-- Byte by byte. -/
theorem getElem?_overwrite {data : List α} (h : data ≠ []) (content : List α) (offset i : ℕ) :
    (overwrite content offset data)[i]? =
      if i < offset then (if i < content.length then content[i]? else some 0)
      else if i < offset + data.length then data[i - offset]? else content[i]? := by
  have hlength : (content.take offset ++ List.replicate (offset - content.length) 0).length =
      offset := by
    rw [List.length_append, List.length_take, List.length_replicate]
    omega
  unfold overwrite
  rw [if_neg h, List.append_assoc]
  by_cases hoffset : i < offset
  · rw [if_pos hoffset, List.getElem?_append_left (hlength.symm ▸ hoffset)]
    by_cases hcontent : i < content.length
    · rw [if_pos hcontent, List.getElem?_append_left (by rw [List.length_take]; omega),
        List.getElem?_take_of_lt hoffset]
    · rw [if_neg hcontent, List.getElem?_append_right (by rw [List.length_take]; omega)]
      apply List.getElem?_replicate_of_lt
      rw [List.length_take]
      omega
  · rw [if_neg hoffset, List.getElem?_append_right (by omega), hlength]
    by_cases hdata : i < offset + data.length
    · rw [if_pos hdata, List.getElem?_append_left (by omega)]
    · rw [if_neg hdata, List.getElem?_append_right (by omega), List.getElem?_drop]
      congr 1
      omega

end Overwrite

/-- What has been read ahead begins at `start`, and what waits to be
written belongs at `position`. -/
structure BufferedStream (α : Type*) where
  position : ℕ := 0
  start : ℕ := 0
  ahead : List α := []
  pending : List α := []
  deriving DecidableEq

namespace BufferedStream

variable (s : BufferedStream α) (content : List α)

/-- Writing leaves nothing read ahead. -/
def flushed (appends : Bool) : BufferedStream α :=
  if s.pending = [] then s
  else { position := (if appends then content.length else s.position) + s.pending.length }

/-- The position is in what has been read ahead. -/
def covers (position : ℕ) : Bool :=
  s.start ≤ position && position < s.start + s.ahead.length

/-- A stream that has read ahead afresh. The window says from how far before
the position, and how much. -/
def fill (window : ℕ → ℕ × ℕ) (position : ℕ) : BufferedStream α where
  position
  start := position - (window position).1
  ahead := (content.drop (position - (window position).1)).take (window position).2

def moveTo (keeps : Bool) (window : ℕ → ℕ × ℕ) (position : ℕ) : BufferedStream α :=
  if keeps && s.covers position then { s with position } else fill content window position

/-- After so many bytes have been read of those asked for. The end of the
file leaves nothing read ahead; what came from what had been read ahead
leaves that; else the stream has read ahead anew. -/
def passed (window : ℕ → ℕ × ℕ) (asked got : ℕ) : BufferedStream α :=
  if got < asked then { position := s.position + got }
  else if s.position + got ≤ s.start + s.ahead.length then { s with position := s.position + got }
  else fill content window (s.position + got)

/-- What there is to be read: first what has been read ahead. -/
def seen : List α :=
  if s.covers s.position then
    s.ahead.drop (s.position - s.start) ++ content.drop (s.start + s.ahead.length)
  else content.drop s.position

/-- What has been read ahead is in the file as it was read. -/
def Fresh : Prop := s.ahead = [] ∨ s.pending = [] ∧ s.ahead <+: content.drop s.start

/-- The file once what waits has gone out: to the position, or to the end
of a file that is appended to. -/
def settled [Zero α] (appends : Bool) : List α :=
  if appends then content ++ s.pending else overwrite content s.position s.pending

section Laws

variable {s content} {window : ℕ → ℕ × ℕ}

@[simp] theorem flushed_pending (appends : Bool) : (s.flushed content appends).pending = [] := by
  unfold flushed
  split
  · assumption
  · rfl

@[simp] theorem moveTo_position (keeps : Bool) (position : ℕ) :
    (s.moveTo content keeps window position).position = position := by
  unfold moveTo
  split <;> rfl

theorem moveTo_pending (h : s.pending = []) (keeps : Bool) (position : ℕ) :
    (s.moveTo content keeps window position).pending = [] := by
  unfold moveTo
  split
  · exact h
  · rfl

theorem fresh_fill (position : ℕ) : (fill content window position).Fresh content :=
  .inr ⟨rfl, List.take_prefix _ _⟩

theorem passed_pending (h : s.pending = []) (asked got : ℕ) :
    (s.passed content window asked got).pending = [] := by
  unfold passed
  split
  · rfl
  · split
    · exact h
    · rfl

theorem Fresh.passed (h : s.Fresh content) (asked got : ℕ) :
    (s.passed content window asked got).Fresh content := by
  unfold BufferedStream.passed
  split
  · exact .inl rfl
  · split
    · exact h
    · exact fresh_fill _

theorem Fresh.moveTo (h : s.Fresh content) (keeps : Bool) (position : ℕ) :
    (s.moveTo content keeps window position).Fresh content := by
  unfold BufferedStream.moveTo
  split
  · exact h
  · exact fresh_fill position

/-- A fresh stream shows the file from the position on. -/
theorem Fresh.seen (h : s.Fresh content) : s.seen content = content.drop s.position := by
  unfold BufferedStream.seen
  split
  · next hcovers =>
      obtain ⟨hstart, hend⟩ : s.start ≤ s.position ∧ s.position < s.start + s.ahead.length := by
        simpa [covers] using hcovers
      obtain hnil | ⟨-, rest, hrest⟩ := h
      · simp [hnil] at hend
        omega
      · have hdrop : content.drop (s.start + s.ahead.length) = rest := by
          rw [← List.drop_drop, ← hrest, List.drop_left]
        have hsplit : s.start + (s.position - s.start) = s.position := by omega
        rw [hdrop, ← List.drop_append_of_le_length (by omega), hrest, List.drop_drop, hsplit]
  · rfl

variable [Zero α]

theorem settled_of_pending (h : s.pending = []) (appends : Bool) :
    s.settled content appends = content := by
  rw [settled, h, overwrite_nil, List.append_nil, ite_self]

theorem Fresh.flushed (h : s.Fresh content) (appends : Bool) :
    (s.flushed content appends).Fresh (s.settled content appends) := by
  unfold BufferedStream.flushed
  split
  · next hnil => rwa [settled_of_pending hnil]
  · exact .inl rfl

end Laws

end BufferedStream

structure BufferedFile (κ α : Type*) where
  content : List α
  streams : κ → BufferedStream α := fun _ => {}
  -- The number of streams opened so far.
  opened : ℕ := 0

namespace BufferedFile

variable {κ : Type*} [DecidableEq κ] (file : BufferedFile κ α) (k : κ)

def put (s : BufferedStream α) : BufferedFile κ α :=
  { file with streams := Function.update file.streams k s }

def openStream (truncates : Bool) : BufferedFile κ α where
  content := if truncates then [] else file.content
  streams := Function.update file.streams k {}
  opened := file.opened + 1

/-- At most `size` bytes from the position on. -/
def next (size : ℕ) : List α := ((file.streams k).seen file.content).take size

def advance (window : ℕ → ℕ × ℕ) (size : ℕ) : BufferedFile κ α :=
  file.put k ((file.streams k).passed file.content window size (file.next k size).length)

/-- What has been read ahead gives way to what is written. -/
def write (data : List α) : BufferedFile κ α :=
  if data = [] then file
  else file.put k { file.streams k with pending := (file.streams k).pending ++ data, ahead := [] }

/-- What waits is given up. -/
def drop : BufferedFile κ α := file.put k { file.streams k with pending := [] }

def Fresh : Prop := (file.streams k).Fresh file.content

/-- The stream is as it was, whatever has become of the content. -/
def Spares (file' : BufferedFile κ α) : Prop :=
  file'.streams k = file.streams k ∧ file'.opened = file.opened

section Laws

variable {file k}

@[simp] theorem put_content (s : BufferedStream α) : (file.put k s).content = file.content := rfl

@[simp] theorem put_streams_self (s : BufferedStream α) : (file.put k s).streams k = s :=
  Function.update_self ..

theorem put_streams_ne {other : κ} (h : k ≠ other) (s : BufferedStream α) :
    (file.put other s).streams k = file.streams k := Function.update_of_ne h ..

@[simp] theorem openStream_streams_self (truncates : Bool) :
    (file.openStream k truncates).streams k = {} := Function.update_self ..

theorem openStream_streams_ne {other : κ} (h : k ≠ other) (truncates : Bool) :
    (file.openStream other truncates).streams k = file.streams k := Function.update_of_ne h ..

theorem fresh_openStream (truncates : Bool) : (file.openStream k truncates).Fresh k := by
  rw [Fresh, openStream_streams_self]
  exact .inl rfl

theorem spares_put {other : κ} (h : k ≠ other) (s : BufferedStream α) :
    file.Spares k (file.put other s) :=
  ⟨put_streams_ne h s, rfl⟩

theorem spares_write {other : κ} (h : k ≠ other) (data : List α) :
    file.Spares k (file.write other data) := by
  unfold write
  split
  · exact ⟨rfl, rfl⟩
  · exact spares_put h _

theorem fresh_put (s : BufferedStream α) (h : s.ahead = []) : (file.put k s).Fresh k := by
  rw [Fresh, put_streams_self]
  exact .inl h

theorem Fresh.advance (h : file.Fresh k) (window : ℕ → ℕ × ℕ) (size : ℕ) :
    (file.advance k window size).Fresh k := by
  rw [Fresh, BufferedFile.advance, put_streams_self]
  exact BufferedStream.Fresh.passed h _ _

@[simp] theorem write_opened (data : List α) : (file.write k data).opened = file.opened := by
  unfold write
  split <;> rfl

theorem Fresh.write (h : file.Fresh k) (data : List α) : (file.write k data).Fresh k := by
  unfold BufferedFile.write
  split
  · exact h
  · exact fresh_put _ rfl

theorem Fresh.drop (h : file.Fresh k) : (file.drop k).Fresh k := by
  rw [Fresh, BufferedFile.drop, put_streams_self]
  exact h.imp_right fun hahead => ⟨rfl, hahead.2⟩

end Laws

section Flushing

variable [Zero α] (appends : κ → Bool)

/-- The file as the user of the stream leaves it. -/
def bytes : List α := (file.streams k).settled file.content (appends k)

def flush : BufferedFile κ α :=
  { file.put k ((file.streams k).flushed file.content (appends k)) with
    content := file.bytes k appends }

def seek (keeps : Bool) (window : ℕ → ℕ × ℕ) (position : ℕ) : BufferedFile κ α :=
  let file := file.flush k appends
  file.put k ((file.streams k).moveTo file.content keeps window position)

variable {file k appends} {keeps : Bool} {window : ℕ → ℕ × ℕ} {position size : ℕ} {data : List α}

@[simp] theorem flush_content : (file.flush k appends).content = file.bytes k appends := rfl

@[simp] theorem flush_streams_self : (file.flush k appends).streams k =
    (file.streams k).flushed file.content (appends k) := Function.update_self ..

@[simp] theorem seek_content :
    (file.seek k appends keeps window position).content = file.bytes k appends := rfl

theorem seek_streams_self : (file.seek k appends keeps window position).streams k =
    ((file.streams k).flushed file.content (appends k)).moveTo (file.bytes k appends) keeps window
      position := by
  rw [seek, put_streams_self, flush_streams_self, flush_content]

@[simp] theorem seek_position :
    ((file.seek k appends keeps window position).streams k).position = position := by
  rw [seek_streams_self, BufferedStream.moveTo_position]

@[simp] theorem seek_pending :
    ((file.seek k appends keeps window position).streams k).pending = [] := by
  rw [seek_streams_self]
  exact BufferedStream.moveTo_pending (BufferedStream.flushed_pending _) _ _

omit [DecidableEq κ] in
theorem bytes_of_pending (h : (file.streams k).pending = []) :
    file.bytes k appends = file.content := BufferedStream.settled_of_pending h _

theorem spares_flush {other : κ} (h : k ≠ other) : file.Spares k (file.flush other appends) :=
  spares_put h ((file.streams other).flushed file.content (appends other))

theorem spares_seek {other : κ} (h : k ≠ other) :
    file.Spares k (file.seek other appends keeps window position) :=
  ⟨(put_streams_ne h _).trans (spares_flush h).1, rfl⟩

theorem Fresh.flush (h : file.Fresh k) (appends : κ → Bool) : (file.flush k appends).Fresh k := by
  rw [Fresh, flush_streams_self]
  exact BufferedStream.Fresh.flushed h _

theorem Fresh.seek (h : file.Fresh k) (appends : κ → Bool) (keeps : Bool)
    (window : ℕ → ℕ × ℕ) (position : ℕ) :
    (file.seek k appends keeps window position).Fresh k := by
  rw [Fresh, seek_streams_self]
  exact (BufferedStream.Fresh.flushed h _).moveTo _ _

/-- A stream that is always filled afresh shows the file. -/
theorem fresh_seek (window : ℕ → ℕ × ℕ) (position : ℕ) :
    (file.seek k appends false window position).Fresh k := by
  rw [Fresh, seek_streams_self]
  exact BufferedStream.fresh_fill position

/-- Where nothing stale is read ahead, the file is read from the position on. -/
theorem next_seek (h : (file.seek k appends keeps window position).Fresh k) :
    (file.seek k appends keeps window position).next k size =
      ((file.bytes k appends).drop position).take size := by
  rw [next, BufferedStream.Fresh.seen h, seek_content, seek_position]

/-- What is kept is read without another look at the file. -/
theorem next_seek_kept (hpending : (file.streams k).pending = [])
    (hcovers : (file.streams k).covers position = true) :
    (file.seek k appends true window position).next k size =
      ((file.streams k).ahead.drop (position - (file.streams k).start) ++
        file.content.drop ((file.streams k).start + (file.streams k).ahead.length)).take size := by
  have hseek : (file.seek k appends true window position).streams k =
      { file.streams k with position } := by
    rw [seek_streams_self, BufferedStream.flushed, if_pos hpending, BufferedStream.moveTo,
      Bool.true_and, if_pos hcovers]
  have hseen : ({ file.streams k with position } : BufferedStream α).seen file.content =
      (file.streams k).ahead.drop (position - (file.streams k).start) ++
        file.content.drop ((file.streams k).start + (file.streams k).ahead.length) :=
    if_pos hcovers
  rw [next, hseek, seek_content, bytes_of_pending hpending, hseen]

theorem bytes_advance_seek :
    ((file.seek k appends keeps window position).advance k window size).bytes k appends =
      file.bytes k appends := by
  rw [bytes_of_pending, advance, put_content, seek_content]
  rw [advance, put_streams_self]
  exact BufferedStream.passed_pending seek_pending _ _

theorem content_flush_write (h : appends k = false) :
    (((file.seek k appends keeps window position).write k data).flush k appends).content =
      overwrite (file.bytes k appends) position data := by
  rw [flush_content, write]
  split
  · next hnil => rw [bytes_of_pending seek_pending, seek_content, hnil, overwrite_nil]
  · rw [bytes, put_streams_self, BufferedStream.settled, h, put_content, seek_content,
      if_neg Bool.false_ne_true, seek_position, seek_pending, List.nil_append]

end Flushing

end BufferedFile

end MockServices.Foundations
