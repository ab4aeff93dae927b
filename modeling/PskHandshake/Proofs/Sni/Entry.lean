/-
What entries are built from, and what every built entry satisfies.

`Entry.Sound` is the invariant of entries: a host entry has a canonical host name, and an entry of
another type has a type of its own and a name that is not empty.

* `Entry.ofHostOctets_eq_ok_iff`, `Entry.ofOther_eq_ok_iff` — when the two ways to build an entry
  succeed;
* `Entry.sound_of_ofHostOctets`, `Entry.sound_of_ofOther` — they build sound entries only;
* `Entry.content_injective` — an entry is its type together with its octets.
-/
import PskHandshake.Proofs.Sni.HostName
import PskHandshake.Sni.Entry

namespace PskHandshake.Sni.Entry

/-- What every way to build an entry makes sure of. -/
def Sound : Entry → Prop
  | host name => HostName.Canonical name
  | other code name => code ≠ 0 ∧ name ≠ []

/-- What an entry holds: its type and the octets of its name. -/
def content (entry : Entry) : NameType × Bytes := (entry.type, entry.octets)

theorem ofHostOctets_eq_ok_iff {name : Bytes} {entry : Entry} :
    ofHostOctets name = .ok entry ↔ ∃ text, HostName.read name = .ok text ∧ entry = host text := by
  rw [ofHostOctets]
  cases HostName.read name with
  | error defect => simp
  | ok text => simp [eq_comm]

theorem ofHostOctets_eq_error_iff {name : Bytes} {error : Error} :
    ofHostOctets name = .error error ↔
      ∃ defect, HostName.read name = .error defect ∧ error = .hostName defect := by
  rw [ofHostOctets]
  cases HostName.read name with
  | error defect => simp [eq_comm]
  | ok text => simp

theorem ofOther_eq_ok_iff {code : UInt8} {name : Bytes} {entry : Entry} :
    ofOther code name = .ok entry ↔
      code ≠ 0 ∧ name ≠ [] ∧ headerSize + name.length ≤ Wire.maxUint16 ∧
        entry = other code name := by
  -- both lengths that are refused, as one condition on the name
  have hlength : ¬(name.length = 0 ∨ Wire.maxUint16 - headerSize < name.length) ↔
      name ≠ [] ∧ headerSize + name.length ≤ Wire.maxUint16 := by
    rw [← List.length_pos_iff, Wire.maxUint16, headerSize]
    omega
  rw [ofOther, ← and_assoc (a := name ≠ []), ← hlength]
  by_cases hcode : code = 0
  · simp [hcode]
  rw [if_neg hcode]
  by_cases hname : name.length = 0 ∨ Wire.maxUint16 - headerSize < name.length
  · rw [if_pos hname]
    exact iff_of_false (by simp) fun h => h.2.1 hname
  · rw [if_neg hname]
    constructor
    · intro h
      exact ⟨hcode, hname, (Except.ok.inj h).symm⟩
    · rintro ⟨-, -, rfl⟩
      rfl

theorem sound_of_ofHostOctets {name : Bytes} {entry : Entry}
    (h : ofHostOctets name = .ok entry) : entry.Sound := by
  obtain ⟨text, htext, rfl⟩ := ofHostOctets_eq_ok_iff.mp h
  exact HostName.canonical_of_read htext

theorem sound_of_ofOther {code : UInt8} {name : Bytes} {entry : Entry}
    (h : ofOther code name = .ok entry) : entry.Sound := by
  obtain ⟨hcode, hname, -, rfl⟩ := ofOther_eq_ok_iff.mp h
  exact ⟨hcode, hname⟩

/-- The type of a sound entry is the one that its code stands for. -/
theorem Sound.ofCode_code {entry : Entry} (h : entry.Sound) :
    NameType.ofCode entry.type.code = entry.type := by
  cases entry with
  | host name => rfl
  | other code name =>
    rw [type, NameType.code, NameType.ofCode, if_neg h.1]

theorem content_injective : Function.Injective content := by
  intro entry entry' h
  obtain ⟨htype, hoctets⟩ := Prod.mk.inj h
  cases entry <;> cases entry' <;> simp only [type, octets] at htype hoctets
  · rw [Wire.utf8_injective hoctets]
  · cases htype
  · cases htype
  · cases htype
    rw [hoctets]

end PskHandshake.Sni.Entry
