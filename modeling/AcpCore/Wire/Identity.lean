import AcpCore.Wire.Instance
import Mathlib.Data.Set.Function

/-!
# Identity of frames

What the canonical form and its hash say of two frames.

## What is proved

* `payloadHash_eq_iff` — where no two canonical forms that are met collide, the
  payload hash identifies a value up to the order of members;
* **`canonical_identity`** — the canonical form, the payload hash and
  `framesEquivalent` tell two frames apart exactly when they are different JSON
  values.
-/

namespace AcpCore.Wire

open AcpCore.Text

variable (X : Crates)

/-- Without a collision, a hash identifies a value up to the order of members. -/
theorem payloadHash_eq_iff (hX : Function.Injective X.printNumber) {S : Set Bytes} (hS : S.InjOn X.blake3)
    {v w : Value} (hv : v.Unique) (hvS : canonicalize X v ∈ S) (hwS : canonicalize X w ∈ S) :
    payloadHash X v = payloadHash X w ↔ Same v w := by
  constructor
  · intro h
    exact (canonicalize_eq_iff X hX hv).mp (hS hvS hwS h)
  · exact payloadHash_of_same X hv

/-- **Canonical identity is exact.** Two values have one canonical form if and only if
they are the same JSON value; where their canonical forms do not collide, the same is
so of their payload hashes, and `framesEquivalent` decides it for frames. -/
theorem canonical_identity (hX : Function.Injective X.printNumber) {v w : Value} (hv : v.Unique) :
    (canonicalize X v = canonicalize X w ↔ Same v w) ∧
    (Set.InjOn X.blake3 {canonicalize X v, canonicalize X w} →
      (payloadHash X v = payloadHash X w ↔ Same v w) ∧
      ∀ f g : Frame, f.value = v → g.value = w → (framesEquivalent X f g = true ↔ Same v w)) := by
  refine ⟨canonicalize_eq_iff X hX hv, fun hinj => ?_⟩
  have hhash : payloadHash X v = payloadHash X w ↔ Same v w :=
    payloadHash_eq_iff X hX hinj hv (Set.mem_insert _ _) (Set.mem_insert_of_mem _ rfl)
  refine ⟨hhash, ?_⟩
  rintro f g rfl rfl
  rw [framesEquivalent, beq_iff_eq]
  exact hhash

theorem canonical_identity_sample :
    (canonicalize (.plain sampleDigests) sampleResponse.value
      = canonicalize (.plain sampleDigests) (sampleRequest 1).value ↔ Same sampleResponse.value (sampleRequest 1).value) ∧
    (Set.InjOn (Crates.plain sampleDigests).blake3 {canonicalize (.plain sampleDigests) sampleResponse.value,
        canonicalize (.plain sampleDigests) (sampleRequest 1).value} →
      (payloadHash (.plain sampleDigests) sampleResponse.value
        = payloadHash (.plain sampleDigests) (sampleRequest 1).value ↔
          Same sampleResponse.value (sampleRequest 1).value) ∧
      ∀ f g : Frame, f.value = sampleResponse.value → g.value = (sampleRequest 1).value →
        (framesEquivalent (.plain sampleDigests) f g = true ↔ Same sampleResponse.value (sampleRequest 1).value)) :=
  canonical_identity _ (printNumber_plain_injective sampleDigests) sampleResponse.value_unique

/-! ### The sample frames -/

/-- The canonical forms of the sample frames. -/
def sampleForms : Set Bytes :=
  {canonicalize (.plain sampleDigests) (sampleRequest 1).value, canonicalize (.plain sampleDigests) (sampleRequest 7).value,
    canonicalize (.plain sampleDigests) sampleResponse.value}

/-- They do not collide. -/
theorem injOn_sampleForms : sampleForms.InjOn (Crates.plain sampleDigests).blake3 := by
  have h₁ : payloadHash (.plain sampleDigests) (sampleRequest 1).value = _ := payloadHash_sampleRequest
  have h₇ : payloadHash (.plain sampleDigests) (sampleRequest 7).value = _ := payloadHash_sampleRequest'
  have h₀ : payloadHash (.plain sampleDigests) sampleResponse.value = _ := payloadHash_sampleResponse
  rw [payloadHash] at h₁ h₇ h₀
  rintro a (rfl | rfl | rfl) b (rfl | rfl | rfl) hab <;> first
    | rfl
    | (simp only [h₁, h₇, h₀] at hab; exact absurd hab (by decide))

theorem canonicalize_sampleResponse' :
    canonicalize (.plain sampleDigests) sampleResponse'.value = canonicalize (.plain sampleDigests) sampleResponse.value := by
  decide +kernel

end AcpCore.Wire
