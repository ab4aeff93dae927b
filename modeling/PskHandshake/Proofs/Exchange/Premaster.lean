/-
Which secrets a premaster secret can be made of, and which it was made of.

A key fits when a vector can carry it, and so does what goes beside it.  Zeros fit beside every key
that does, as they are as long as the key; so what is agreed on alone decides whether the first
vector can be made, once the key fits.  Vectors that carry what they are made of can be taken apart
again, so a premaster secret has one key and one secret beside it.

* `Premaster.compute_eq_ok_iff` — the premaster secret of secrets that fit;
* `Premaster.compute_of_not_key_fits`, `Premaster.compute_of_not_other_fits` — the secret that is
  reported when one does not, which is the key if neither fits;
* `Premaster.carries_of_compute` — both vectors carry their octets, without truncation;
* `Premaster.compute_unambiguous` — when there is a premaster secret, what it is, and when two are
  the same.
-/
import PskHandshake.Exchange
import PskHandshake.Proofs.Wire

namespace PskHandshake

/-- The key is not too long for a vector. -/
def SecretKey.Fits (key : SecretKey) : Prop := key.length ≤ Wire.maxUint16

instance (key : SecretKey) : Decidable key.Fits :=
  inferInstanceAs (Decidable (key.length ≤ Wire.maxUint16))

namespace Premaster

/-- What was agreed on, if anything was, is not too long for a vector. -/
def Other.Fits : Other → Prop
  | zeros => True
  | agreed secret => secret.length ≤ Wire.maxUint16

instance : (other : Other) → Decidable other.Fits
  | .zeros => isTrue trivial
  | .agreed secret => inferInstanceAs (Decidable (secret.length ≤ Wire.maxUint16))

variable {key : SecretKey} {other : Other}

theorem Other.length_beside_le_iff (hkey : key.Fits) :
    (other.beside key).length ≤ Wire.maxUint16 ↔ other.Fits := by
  cases other with
  | zeros =>
    rw [beside, List.length_replicate]
    exact iff_of_true hkey trivial
  | agreed secret => exact Iff.rfl

theorem compute_of_fits (hkey : key.Fits) (hother : other.Fits) :
    compute key other = .ok (Wire.vector16 (other.beside key) ++ Wire.vector16 key.bytes) := by
  have hbeside := (Other.length_beside_le_iff hkey).mpr hother
  rw [compute, if_neg (Nat.not_lt.mpr hkey), if_neg (Nat.not_lt.mpr hbeside)]

theorem compute_of_not_key_fits (hkey : ¬key.Fits) : compute key other = .error .keyTooLong := by
  rw [compute, if_pos (Nat.lt_of_not_le hkey)]

theorem compute_of_not_other_fits (hkey : key.Fits) (hother : ¬other.Fits) :
    compute key other = .error .agreedTooLong := by
  have hbeside := mt (Other.length_beside_le_iff hkey).mp hother
  rw [compute, if_neg (Nat.not_lt.mpr hkey), if_pos (Nat.lt_of_not_le hbeside)]

theorem compute_eq_ok_iff {premaster : Bytes} :
    compute key other = .ok premaster ↔
      key.Fits ∧ other.Fits ∧
        premaster = Wire.vector16 (other.beside key) ++ Wire.vector16 key.bytes := by
  by_cases hkey : key.Fits
  · by_cases hother : other.Fits
    · simp only [compute_of_fits hkey hother, hkey, hother, Except.ok.injEq, true_and, eq_comm]
    · simp only [compute_of_not_other_fits hkey hother, hother, reduceCtorEq, false_and, and_false]
  · simp only [compute_of_not_key_fits hkey, hkey, reduceCtorEq, false_and]

theorem exists_compute_eq_ok_iff :
    (∃ premaster, compute key other = .ok premaster) ↔ key.Fits ∧ other.Fits := by
  simp only [compute_eq_ok_iff, exists_and_left, exists_eq, and_true]

/-! ### The secrets of a premaster secret -/

/-- A premaster secret is two vectors that carry what they were made of. -/
theorem carries_of_compute {premaster : Bytes} (h : compute key other = .ok premaster) :
    ∃ first second, premaster = first ++ second ∧ Wire.Carries first (other.beside key) ∧
      Wire.Carries second key.bytes := by
  obtain ⟨hkey, hother, rfl⟩ := compute_eq_ok_iff.mp h
  have hbeside := (Other.length_beside_le_iff hkey).mpr hother
  exact ⟨_, _, rfl, Wire.carries_iff.mpr ⟨rfl, hbeside⟩, Wire.carries_iff.mpr ⟨rfl, hkey⟩⟩

theorem length_of_compute {premaster : Bytes} (h : compute key other = .ok premaster) :
    premaster.length = 4 + (other.beside key).length + key.length := by
  obtain ⟨-, -, rfl⟩ := compute_eq_ok_iff.mp h
  rw [List.length_append, Wire.length_vector16, Wire.length_vector16, SecretKey.length]
  omega

/-- The premaster secret tells the key and what was beside it, and does not tell whether this was
agreed on. -/
theorem eq_iff_of_compute {key' : SecretKey} {other' : Other} {premaster premaster' : Bytes}
    (h : compute key other = .ok premaster) (h' : compute key' other' = .ok premaster') :
    premaster = premaster' ↔ key = key' ∧ other.beside key = other'.beside key' := by
  constructor
  · rintro rfl
    obtain ⟨first, second, rfl, hfirst, hsecond⟩ := carries_of_compute h
    obtain ⟨first', second', hsame, hfirst', hsecond'⟩ := carries_of_compute h'
    obtain ⟨hbeside, hrest⟩ := hfirst.append_inj hfirst' hsame
    -- nothing follows the second vector
    rw [← List.append_nil second, ← List.append_nil second'] at hrest
    obtain ⟨hkey, -⟩ := hsecond.append_inj hsecond' hrest
    exact ⟨congrArg SecretKey.mk hkey, hbeside⟩
  · rintro ⟨rfl, hbeside⟩
    obtain ⟨-, -, rfl⟩ := compute_eq_ok_iff.mp h
    obtain ⟨-, -, rfl⟩ := compute_eq_ok_iff.mp h'
    rw [hbeside]

/-- **Premaster secrets are well formed and unambiguous.**  There is one exactly when the key and
what was agreed on both fit, and a key that does not is reported whatever was agreed on.  It is what
stands beside the key, and the key, each after its length in 16 bits, which is never truncated; so
it is longer than the two by four.  Two premaster secrets are the same exactly when they have one
key and the same octets beside it: what was agreed on passes for nothing only if it is as many zeros
as the key is long. -/
theorem compute_unambiguous :
    (∀ key other, (∃ premaster, compute key other = .ok premaster) ↔ key.Fits ∧ other.Fits) ∧
    (∀ key other, ¬key.Fits → compute key other = .error .keyTooLong) ∧
    (∀ key other premaster, compute key other = .ok premaster →
      premaster = Wire.uint16 (other.beside key).length ++ other.beside key ++
          (Wire.uint16 key.length ++ key.bytes) ∧
        (∃ first second, premaster = first ++ second ∧ Wire.Carries first (other.beside key) ∧
          Wire.Carries second key.bytes) ∧
        premaster.length = 4 + (other.beside key).length + key.length) ∧
    (∀ key other premaster key' other' premaster', compute key other = .ok premaster →
      compute key' other' = .ok premaster' →
        (premaster = premaster' ↔ key = key' ∧ other.beside key = other'.beside key')) ∧
    ∀ key premaster key' secret premaster', compute key .zeros = .ok premaster →
      compute key' (.agreed secret) = .ok premaster' →
        (premaster = premaster' ↔ key = key' ∧ secret = List.replicate key.length 0) := by
  refine ⟨?_, ?_, ?_, ?_, ?_⟩
  · intro key other
    exact exists_compute_eq_ok_iff
  · intro key other hkey
    exact compute_of_not_key_fits hkey
  · intro key other premaster h
    exact ⟨(compute_eq_ok_iff.mp h).2.2, carries_of_compute h, length_of_compute h⟩
  · intro key other premaster key' other' premaster' h h'
    exact eq_iff_of_compute h h'
  · intro key premaster key' secret premaster' h h'
    rw [eq_iff_of_compute h h']
    exact and_congr_right fun _ => eq_comm

/-- Two zeros that were agreed on pass for nothing beside a key of two octets, and one zero does
not; a key that is too long by one octet is reported. -/
theorem compute_unambiguous_agreed_zeros :
    let key : SecretKey := ⟨[1, 2]⟩
    let tooLong : SecretKey := ⟨List.replicate 65536 7⟩
    compute key .zeros = .ok [0, 2, 0, 0, 0, 2, 1, 2] ∧
      compute key (.agreed [0, 0]) = .ok [0, 2, 0, 0, 0, 2, 1, 2] ∧
      compute key (.agreed [0]) = .ok [0, 1, 0, 0, 2, 1, 2] ∧
      [0] ≠ List.replicate key.length (0 : UInt8) ∧
      compute tooLong (.agreed []) = .error .keyTooLong := by
  intro key tooLong
  obtain ⟨hexists, hlong, -, -, hpasses⟩ := compute_unambiguous
  have hzeros : compute key .zeros = .ok [0, 2, 0, 0, 0, 2, 1, 2] := by decide
  have hone : compute key (.agreed [0]) = .ok [0, 1, 0, 0, 2, 1, 2] := by decide
  -- the premaster secret beside two zeros is found from its form, and is that of no secret
  obtain ⟨premaster, htwo⟩ := (hexists key (.agreed [0, 0])).mpr (by decide)
  obtain rfl := (hpasses _ _ _ _ _ hzeros htwo).mpr ⟨rfl, rfl⟩
  have hne : [0] ≠ List.replicate key.length (0 : UInt8) := by
    intro hsecret
    exact absurd ((hpasses _ _ _ _ _ hzeros hone).mpr ⟨rfl, hsecret⟩) (by decide)
  have hfits : ¬tooLong.Fits := by
    rw [SecretKey.Fits, SecretKey.length, List.length_replicate]
    decide
  exact ⟨hzeros, htwo, hone, hne, hlong tooLong _ hfits⟩

end Premaster

end PskHandshake
