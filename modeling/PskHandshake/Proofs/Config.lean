/-
Which configurations a client can have.

Settings are made one after the other, and two kinds of them write the limit on identities.  What
they leave behind is what was written last, and only its limit decides whether it is a
configuration.

* `ClientConfig.foldl_set` — what settings leave behind;
* `ClientConfig.build_eq_ok_iff` — the configuration that settings build;
* `ClientConfig.fault_of_build_iff` — and why they build none.
-/
import Mathlib
import PskHandshake.Config
import PskHandshake.Fallible

namespace PskHandshake

namespace Config

variable {config : Config}

/-- A configuration passes the check unchanged, exactly when its limit is one that an identity can
have on the wire. -/
theorem check_eq_ok_iff {checked : Config} :
    config.check = .ok checked ↔
      (1 ≤ config.maxIdentityLength ∧ config.maxIdentityLength ≤ 65535) ∧ checked = config := by
  rw [check, Wire.maxUint16]
  split
  next hzero =>
    refine iff_of_false (by simp) ?_
    rintro ⟨⟨hpos, -⟩, -⟩
    omega
  next hzero =>
  split
  next hlarge =>
    refine iff_of_false (by simp) ?_
    rintro ⟨⟨-, hle⟩, -⟩
    omega
  next hlarge =>
    rw [Except.ok.injEq, eq_comm]
    exact (and_iff_right ⟨by omega, by omega⟩).symm

theorem check_eq_error_iff {error : Error} :
    config.check = .error error ↔
      config.maxIdentityLength = 0 ∧ error = .zeroLimit ∨
        65535 < config.maxIdentityLength ∧ error = .limitTooLarge config.maxIdentityLength := by
  rw [check, Wire.maxUint16]
  split
  next hzero =>
    rw [Except.error.injEq, eq_comm, hzero]
    simp
  next hzero =>
  split
  next hlarge =>
    rw [Except.error.injEq, eq_comm]
    simp [hzero, hlarge]
  next hlarge =>
    refine iff_of_false (by simp) ?_
    rintro (⟨h, -⟩ | ⟨h, -⟩)
    · exact hzero h
    · exact hlarge h

end Config

namespace ClientConfig

/-! ### What settings leave behind -/

/-- The limit that a setting writes, if it writes one. -/
def Setting.limit? : Setting → Option Nat
  | base config => some config.maxIdentityLength
  | sni _ => none
  | maxIdentityLength length => some length

/-- Whether server names are to be in use, if a setting says so. -/
def Setting.sni? : Setting → Option Bool
  | base _ => none
  | sni enabled => some enabled
  | maxIdentityLength _ => none

/-- The limit that settings ask for: the last one written, or else what every side must accept. -/
def requestedLimit (settings : List Setting) : Nat :=
  (settings.filterMap Setting.limit?).getLast?.getD 128

/-- Whether settings ask for server names: what was said last, or else not. -/
def requestedSni (settings : List Setting) : Bool :=
  (settings.filterMap Setting.sni?).getLast?.getD false

variable {settings : List Setting} {config : ClientConfig}

theorem maxIdentityLength_set (config : ClientConfig) (setting : Setting) :
    (config.set setting).base.maxIdentityLength =
      setting.limit?.getD config.base.maxIdentityLength := by
  cases setting <;> rfl

theorem sni_set (config : ClientConfig) (setting : Setting) :
    (config.set setting).sni = setting.sni?.getD config.sni := by
  cases setting <;> rfl

/-- Where each setting leaves in a field what it writes there, or else what was there, some settings
leave what the last of them wrote. -/
theorem field_foldl_set {α : Type} (field : ClientConfig → α) (write : Setting → Option α)
    (hset : ∀ config setting, field (config.set setting) = (write setting).getD (field config))
    (settings : List Setting) (config : ClientConfig) :
    field (settings.foldl set config) =
      (settings.filterMap write).getLast?.getD (field config) := by
  -- the last setting stands at the end, so settings grow there
  induction settings using List.reverseRecOn with
  | nil => rfl
  | append_singleton settings setting ih =>
    rw [List.foldl_concat, hset, ih, List.filterMap_append, List.getLast?_append, Option.getD_or]
    cases hwrite : write setting with
    | none => simp [hwrite]
    | some value => simp [hwrite]

/-- Settings leave what was written last, whatever else was set between or in which order. -/
theorem foldl_set (settings : List Setting) :
    settings.foldl set {} = ⟨⟨requestedLimit settings⟩, requestedSni settings⟩ := by
  have hlimit := field_foldl_set (·.base.maxIdentityLength) _ maxIdentityLength_set settings {}
  have hsni := field_foldl_set (·.sni) _ sni_set settings {}
  rcases hleft : settings.foldl set {} with ⟨⟨limit⟩, sni⟩
  rw [hleft] at hlimit hsni
  obtain rfl : limit = requestedLimit settings := hlimit
  obtain rfl : sni = requestedSni settings := hsni
  rfl

/-! ### What they build -/

/-- Of what settings leave behind, only the limit is checked. -/
theorem build_eq (settings : List Setting) :
    build settings =
      ((Config.check ⟨requestedLimit settings⟩).map (⟨·, requestedSni settings⟩)).mapError .mk := by
  rw [build, foldl_set]
  rcases Config.check ⟨requestedLimit settings⟩ with cause | base
  · rfl
  · rfl

theorem build_eq_ok_iff :
    build settings = .ok config ↔
      (1 ≤ requestedLimit settings ∧ requestedLimit settings ≤ 65535) ∧
        config = ⟨⟨requestedLimit settings⟩, requestedSni settings⟩ := by
  rw [build_eq, Fallible.mapError_eq_ok_iff, Fallible.map_eq_ok_iff]
  constructor
  · rintro ⟨base, hbase, rfl⟩
    obtain ⟨hrange, rfl⟩ := Config.check_eq_ok_iff.mp hbase
    exact ⟨hrange, rfl⟩
  · rintro ⟨hrange, rfl⟩
    exact ⟨_, Config.check_eq_ok_iff.mpr ⟨hrange, rfl⟩, rfl⟩

/-- A limit that cannot be had does no harm if it is replaced, and is not mended by one that was
written before it. -/
example : build [.base ⟨0⟩, .sni true, .maxIdentityLength 512] = .ok ⟨⟨512⟩, true⟩ ∧
    build [.maxIdentityLength 512, .sni true, .base ⟨0⟩] = .error ⟨.zeroLimit⟩ := by
  decide

/-- A limit is refused with the fault, for being outside the range on one of its sides. -/
inductive LimitRefused (limit : Nat) : Fault → Prop
  | zero : limit = 0 →
      LimitRefused limit ⟨.invalidConfig, "client: Max PSK identity length must not be zero"⟩
  | tooLarge : 65535 < limit →
      LimitRefused limit
        ⟨.invalidConfig, "client: Max PSK identity length " ++ toString limit ++ " exceeds 65535"⟩

/-- A limit is refused exactly when it is out of range. -/
theorem exists_limitRefused_iff {limit : Nat} :
    (∃ detail, LimitRefused limit ⟨.invalidConfig, detail⟩) ↔ ¬(1 ≤ limit ∧ limit ≤ 65535) := by
  constructor
  · rintro ⟨detail, h⟩ ⟨hpos, hle⟩
    cases h with
    | zero hzero => omega
    | tooLarge hlarge => omega
  · intro h
    by_cases hzero : limit = 0
    · exact ⟨_, .zero hzero⟩
    · exact ⟨_, .tooLarge (by omega)⟩

theorem Error.toFault_limitTooLarge (limit : Nat) :
    (Error.mk (.limitTooLarge limit)).toFault =
      ⟨.invalidConfig,
        "client: Max PSK identity length " ++ toString limit ++ " exceeds 65535"⟩ := by
  have hdetail : (Config.Error.limitTooLarge limit).detail =
      "Max PSK identity length " ++ toString limit ++ " exceeds " ++ "65535" := rfl
  rw [toFault, hdetail]
  simp only [String.append_assoc]
  rfl

/-- Settings build no configuration when the limit that they ask for is refused, and with the fault
of that limit. -/
theorem fault_of_build_iff {fault : Fault} :
    (build settings).mapError Error.toFault = .error fault ↔
      LimitRefused (requestedLimit settings) fault := by
  rw [build_eq, Fallible.mapError_eq_error_iff]
  simp only [Fallible.mapError_eq_error_iff, Fallible.map_eq_error_iff]
  constructor
  · rintro ⟨_, ⟨cause, hcause, rfl⟩, rfl⟩
    obtain ⟨hzero, rfl⟩ | ⟨hlarge, rfl⟩ := Config.check_eq_error_iff.mp hcause
    · exact .zero hzero
    · rw [Error.toFault_limitTooLarge]
      exact .tooLarge hlarge
  · intro h
    cases h with
    | zero hzero =>
      exact ⟨_, ⟨_, Config.check_eq_error_iff.mpr (.inl ⟨hzero, rfl⟩), rfl⟩, rfl⟩
    | tooLarge hlarge =>
      exact ⟨_, ⟨_, Config.check_eq_error_iff.mpr (.inr ⟨hlarge, rfl⟩), rfl⟩,
        Error.toFault_limitTooLarge _⟩

end ClientConfig

end PskHandshake
