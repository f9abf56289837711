import Mathlib.Data.List.Basic
import Mathlib.Data.UInt

/-!
# Length-delimited frames

A stream of frames, each behind its length as four bytes, most significant
first, and the decoder that takes them off a buffer filled in chunks. The
decoder consumes a header as soon as it is whole, so what it holds of an
unfinished frame is partly in its state: `unframed` puts it back in bytes,
and `decode_unframed` says that a decoding step neither loses nor makes up
a byte.
-/

namespace Shep

namespace Framing

/-- Four bytes, most significant first. -/
def be32 (n : ℕ) : List UInt8 :=
  [.ofNat (n / 2 ^ 24), .ofNat (n / 2 ^ 16), .ofNat (n / 2 ^ 8), .ofNat n]

/-- The number four bytes spell. -/
def ofBe32 (b₃ b₂ b₁ b₀ : UInt8) : ℕ :=
  ((b₃.toNat * 2 ^ 8 + b₂.toNat) * 2 ^ 8 + b₁.toNat) * 2 ^ 8 + b₀.toNat

theorem be32_ofBe32 (b₃ b₂ b₁ b₀ : UInt8) : be32 (ofBe32 b₃ b₂ b₁ b₀) = [b₃, b₂, b₁, b₀] := by
  have h₃ := b₃.toNat_lt
  have h₂ := b₂.toNat_lt
  have h₁ := b₁.toNat_lt
  have h₀ := b₀.toNat_lt
  have hbyte : ∀ (m : ℕ) (b : UInt8), m % 256 = b.toNat → UInt8.ofNat m = b := by
    intro m b h
    apply UInt8.toNat_inj.1
    simpa using h
  simp only [be32, ofBe32, List.cons.injEq, and_true]
  refine ⟨hbyte _ _ ?_, hbyte _ _ ?_, hbyte _ _ ?_, hbyte _ _ ?_⟩ <;> omega

/-- A frame on the wire. -/
def onWire (payload : List UInt8) : List UInt8 := be32 payload.length ++ payload

/-- What the decoder waits for. -/
inductive Awaited where
  | head
  | data (n : ℕ)
  deriving Repr, DecidableEq

/-- What one decoding step comes to: a frame or none, what is awaited
after it and what is left in the buffer; or a frame longer than allowed. -/
inductive Decoded where
  | item (frame : Option (List UInt8)) (awaited : Awaited) (src : List UInt8)
  | tooLong
  deriving Repr, DecidableEq

/-- Takes a payload whose header has been consumed. -/
def decodeData (n : ℕ) (src : List UInt8) : Decoded :=
  if src.length < n then .item none (.data n) src
  else .item (some (src.take n)) .head (src.drop n)

/-- One decoding step, for frames of at most `limit` bytes. -/
def decode (limit : ℕ) (awaited : Awaited) (src : List UInt8) : Decoded :=
  match awaited with
  | .data n => decodeData n src
  | .head =>
    match src with
    | b₃ :: b₂ :: b₁ :: b₀ :: rest =>
      if limit < ofBe32 b₃ b₂ b₁ b₀ then .tooLong else decodeData (ofBe32 b₃ b₂ b₁ b₀) rest
    | short => .item none .head short

/-- The bytes of an unfinished frame, its consumed header included. -/
def unframed : Awaited → List UInt8 → List UInt8
  | .head, src => src
  | .data n, src => be32 n ++ src

theorem decodeData_unframed {n : ℕ} {src src' : List UInt8} {frame : Option (List UInt8)}
    {awaited' : Awaited} (h : decodeData n src = .item frame awaited' src') :
    be32 n ++ src = (frame.elim [] onWire) ++ unframed awaited' src' := by
  unfold decodeData at h
  split at h
  · cases h
    rfl
  · next hlen =>
    cases h
    have htake : (src.take n).length = n := List.length_take_of_le (by omega)
    simp [onWire, htake, unframed]

/-- **A decoding step keeps every byte**: those of the frame it hands on,
and those it goes on holding. -/
theorem decode_unframed {limit : ℕ} {awaited awaited' : Awaited} {src src' : List UInt8}
    {frame : Option (List UInt8)} (h : decode limit awaited src = .item frame awaited' src') :
    unframed awaited src = (frame.elim [] onWire) ++ unframed awaited' src' := by
  unfold decode at h
  split at h
  · exact decodeData_unframed h
  · split at h
    · next b₃ b₂ b₁ b₀ rest =>
      split at h
      · cases h
      · have hdata := decodeData_unframed h
        rw [be32_ofBe32] at hdata
        exact hdata
    · cases h
      rfl

theorem be32_append_ne_nil (n : ℕ) (src : List UInt8) : be32 n ++ src ≠ [] := by
  simp [be32]

/-- **When a decoder holds part of a frame**, read off what one step did to
its buffer: bytes are left over, or a header went and no frame came. The
exception is a step on an empty buffer with a header already consumed. -/
theorem decode_holding {limit : ℕ} {awaited awaited' : Awaited} {src src' : List UInt8}
    {frame : Option (List UInt8)} (h : decode limit awaited src = .item frame awaited' src')
    (hfed : ∀ n, awaited = .data n → src ≠ []) :
    unframed awaited' src' ≠ [] ↔ src' ≠ [] ∨ frame = none ∧ src'.length < src.length := by
  have hdata : ∀ {n : ℕ} {rest : List UInt8}, decodeData n rest = .item frame awaited' src' →
      (rest.length < n → rest ≠ [] ∨ rest.length < src.length) →
      (unframed awaited' src' ≠ [] ↔ src' ≠ [] ∨ frame = none ∧ src'.length < src.length) := by
    intro n rest hd hshort
    unfold decodeData at hd
    split at hd
    · next hlt =>
      cases hd
      refine ⟨fun _ => ?_, fun _ => be32_append_ne_nil n src'⟩
      rcases hshort hlt with hne | hlen
      · exact .inl hne
      · exact .inr ⟨rfl, hlen⟩
    · cases hd
      simp [unframed]
  unfold decode at h
  split at h
  · next n => exact hdata h fun _ => .inl (hfed n rfl)
  · split at h
    · split at h
      · cases h
      · exact hdata h fun _ => .inr (by simp only [List.length_cons]; omega)
    · cases h
      simp [unframed]

/-- A frame handed on leaves the decoder at a header. -/
theorem decode_some {limit : ℕ} {awaited awaited' : Awaited} {src src' payload : List UInt8}
    (h : decode limit awaited src = .item (some payload) awaited' src') : awaited' = .head := by
  have hdata : ∀ {n : ℕ} {rest : List UInt8},
      decodeData n rest = .item (some payload) awaited' src' → awaited' = .head := by
    intro n rest hd
    unfold decodeData at hd
    split at hd <;> cases hd
    rfl
  unfold decode at h
  split at h
  · exact hdata h
  · split at h
    · split at h
      · cases h
      · exact hdata h
    · cases h

end Framing

end Shep
