import Shep.Logs.Pump

/-!
# Logs — lines off a stream, and into a file

`textLines` is what the lines of a text are here, and `Stream.ahead` what a
stream has yet to hand out. A poll takes no line off it or the first one
(`Stream.Takes`), wherever the pipe is cut and whatever poll was given up
before. A file holds the records of the lines it was given, in order
(`LogFile.Holds`).
-/

namespace Shep

namespace Logs

open Utf8

/-! ## The lines of a text -/

/-- A line without the `\r` before its end. -/
def chomp (line : List UInt8) : List UInt8 :=
  if line.getLast? = some carriageReturn then line.dropLast else line

/-- The lines of a text: what stands before each `\n`, without a `\r` at its
end, and what stands behind the last one. -/
def textLines (text : List UInt8) : List (List UInt8) :=
  let parts := text.splitOn newline
  parts.dropLast.map chomp ++ if parts.getLast? = some [] then [] else parts.getLast?.toList

namespace Stream

/-- What has been read of the line that is not handed out yet. -/
def started (s : Stream) : List UInt8 := s.reader.begin.buf

/-- What is yet to be handed out. -/
def ahead (s : Stream) : List UInt8 := s.started ++ s.reader.buffer ++ s.rest

/-- The line that is being read has not come to its end. -/
def Open (s : Stream) : Prop := newline ∉ s.started

/-- `lines` are the next ones of `s`, and what comes behind them is ahead in
`s'`. -/
structure Takes (s : Stream) (lines : List (List UInt8)) (s' : Stream) : Prop where
  lines : textLines s.ahead = lines ++ textLines s'.ahead
  isOpen : s'.Open

theorem Takes.trans {s s' s'' : Stream} {lines lines' : List (List UInt8)} (h : s.Takes lines s')
    (h' : s'.Takes lines' s'') : s.Takes (lines ++ lines') s'' where
  lines := by rw [h.lines, h'.lines, List.append_assoc]
  isOpen := h'.isOpen

end Stream

/-- The stamp of a record. -/
def stampOf (stamper : Option (ℕ → List UInt8)) (n : ℕ) : List UInt8 :=
  match stamper with
  | some stampInto => stampInto n
  | none => []

/-- What a file of these lines is: each behind its stamp, and before a
newline. -/
def render (stamper : Option (ℕ → List UInt8)) (lines : List (List UInt8)) : List UInt8 :=
  lines.zipIdx.flatMap fun line => stampOf stamper line.2 ++ line.1 ++ [newline]

theorem render_snoc (stamper : Option (ℕ → List UInt8)) (lines : List (List UInt8))
    (line : List UInt8) : render stamper (lines ++ [line]) =
      render stamper lines ++ (stampOf stamper lines.length ++ line ++ [newline]) := by
  simp [render, List.zipIdx_append]

namespace LogFile

/-- What the pump has handed to a file: what has reached it, and what is
buffered. -/
def contents (f : LogFile) : List UInt8 := f.written ++ f.buffer

/-- The file is these lines, in order. -/
structure Holds (f : LogFile) (stamper : Option (ℕ → List UInt8)) (lines : List (List UInt8)) :
    Prop where
  stamps : f.stamper = stamper
  records : f.records = lines.length
  contents : f.contents = render stamper lines

theorem contents_writeAll (data : List UInt8) (f : LogFile) :
    (f.writeAll data).contents = f.contents ++ data := by
  unfold writeAll contents
  split
  · split <;> simp
  · -- with room for all of it, it is written through only at the capacity, over an empty buffer
    split
    · have hnil : f.buffer = [] := List.length_eq_zero_iff.1 (by omega)
      simp [hnil]
    · simp

theorem stamper_writeAll (data : List UInt8) (f : LogFile) :
    (f.writeAll data).stamper = f.stamper ∧ (f.writeAll data).records = f.records := by
  unfold writeAll
  split <;> split <;> exact ⟨rfl, rfl⟩

namespace Holds

variable {f : LogFile} {stamper : Option (ℕ → List UInt8)} {lines : List (List UInt8)}

theorem append (h : f.Holds stamper lines) (line : List UInt8) :
    (f.append line).Holds stamper (lines ++ [line]) where
  stamps := (stamper_writeAll _ _).1.trans h.stamps
  records := by
    rw [List.length_append, ← h.records]
    exact (stamper_writeAll _ _).2
  contents := by
    rw [render_snoc, ← h.contents, ← h.stamps, ← h.records]
    exact contents_writeAll _ _

theorem flush (h : f.Holds stamper lines) : f.flush.Holds stamper lines where
  stamps := h.stamps
  records := h.records
  contents := by
    rw [← h.contents]
    exact List.append_nil _

theorem foldl (h : f.Holds stamper lines) (more : List (List UInt8)) :
    (more.foldl (fun f line => f.append line) f).Holds stamper (lines ++ more) := by
  induction more generalizing f lines with
  | nil => rwa [List.append_nil]
  | cons line more ih =>
    rw [List.append_cons]
    exact ih (h.append line)

end Holds

end LogFile

/-! ## A drain -/

end Logs

end Shep
