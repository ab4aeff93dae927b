/-
The grammar of IP addresses, and that the readers accept exactly the grammar.

The grammar puts a text together from groups and the symbols between them; the readers take the text
apart at these symbols.  What makes the two meet is that no group holds a symbol, so that there is
one way to take a text apart.

* `Numeral.extend?_ten_eq_some_iff`, `Numeral.exists_extend?_sixteen_iff` — which digits are read as
  a number;
* `Ipv4.isSome_parse?_iff` — the dotted form;
* `Ipv6.splitGap?_intercalate_append` — the first gap of a text is the one between its groups;
* `Ipv6.exists_closingGroups?_iff` — which pieces are read as groups;
* `Ipv6.isSome_parse?_iff` — the colon form.
-/
import PskHandshake.Proofs.LetterCase

namespace PskHandshake

/-! ### The grammar -/

namespace Ipv4

/-- A group of the dotted form: one to three decimal digits for a number up to 255, without a
leading zero unless the group is just zero. -/
structure IsOctet (text : List Char) : Prop where
  length : 1 ≤ text.length ∧ text.length ≤ 3
  digits : ∀ c ∈ text, c.isDigit
  value : Nat.ofDigitChars 10 text 0 ≤ 255
  zero : text.head? = some '0' → text = ['0']

/-- The dotted form: four groups with dots between them. -/
def IsText (text : List Char) : Prop :=
  ∃ octets : List (List Char), octets.length = 4 ∧ (∀ octet ∈ octets, IsOctet octet) ∧
    text = ['.'].intercalate octets

end Ipv4

namespace Ipv6

/-- A group of the colon form: one to four hexadecimal digits of either case. -/
structure IsGroup (text : List Char) : Prop where
  length : 1 ≤ text.length ∧ text.length ≤ 4
  digits : ∀ c ∈ text, c.isHexDigit

/-- Some number of groups with colons between them. -/
def IsGroups (n : ℕ) (text : List Char) : Prop :=
  ∃ groups : List (List Char), (groups.length = n ∧ ∀ group ∈ groups, IsGroup group) ∧
    text = [':'].intercalate groups

/-- Pieces that are some number of groups, of which the last two may be written as an IPv4
address. -/
def Closes (n : ℕ) (pieces : List (List Char)) : Prop :=
  (pieces.length = n ∧ ∀ group ∈ pieces, IsGroup group) ∨
    ∃ groups last, pieces = groups ++ [last] ∧ groups.length + 2 = n ∧
      (∀ group ∈ groups, IsGroup group) ∧ Ipv4.IsText last

/-- Some number of groups with colons between them, of which the last two may be written as an IPv4
address. -/
def IsClosing (n : ℕ) (text : List Char) : Prop :=
  ∃ pieces : List (List Char), Closes n pieces ∧ text = [':'].intercalate pieces

/-- The colon form: eight groups, or fewer with a gap between them that stands for the others. -/
def IsText (text : List Char) : Prop :=
  IsClosing 8 text ∨
    ∃ (m n : ℕ) (before after : List Char), m + n < 8 ∧ IsGroups m before ∧ IsClosing n after ∧
      text = before ++ ':' :: ':' :: after

end Ipv6

/-! ### Numerals -/

namespace Numeral

theorem isHexDigit_iff (c : Char) :
    c.isHexDigit ↔ (48 ≤ c.toNat ∧ c.toNat ≤ 57) ∨ (97 ≤ c.toNat ∧ c.toNat ≤ 102) ∨
      (65 ≤ c.toNat ∧ c.toNat ≤ 70) := by
  simp [Char.isHexDigit, Char.isDigit_iff_toNat, UInt32.le_iff_toNat_le, or_assoc]

/-- The value of a digit, by the number of the character. -/
theorem hexDigit?_eq_some_iff {c : Char} {d : ℕ} :
    hexDigit? c = some d ↔
      (48 ≤ c.toNat ∧ c.toNat ≤ 57 ∧ d = c.toNat - 48) ∨
      (97 ≤ c.toNat ∧ c.toNat ≤ 102 ∧ d = c.toNat - 87) ∨
      (65 ≤ c.toNat ∧ c.toNat ≤ 70 ∧ d = c.toNat - 55) := by
  have h0 : '0'.toNat = 48 := rfl
  have h9 : '9'.toNat = 57 := rfl
  have ha : 'a'.toNat = 97 := rfl
  have hf : 'f'.toNat = 102 := rfl
  have hA : 'A'.toNat = 65 := rfl
  have hF : 'F'.toNat = 70 := rfl
  simp only [hexDigit?, Char.le_def, UInt32.le_iff_toNat_le, Char.toNat_val, h0, h9, ha, hf, hA, hF]
  split_ifs <;> simp only [Option.some.injEq, false_iff] <;> omega

theorem digit?_ten_eq_some_iff {c : Char} {d : ℕ} :
    digit? 10 c = some d ↔ c.isDigit ∧ d = c.toNat - '0'.toNat := by
  have h0 : '0'.toNat = 48 := rfl
  have h9 : '9'.toNat = 57 := rfl
  rw [digit?, Option.filter_eq_some_iff, hexDigit?_eq_some_iff, Char.isDigit_iff_toNat,
    decide_eq_true_eq, h0, h9]
  omega

theorem digit?_sixteen_eq_some_iff {c : Char} : (∃ d, digit? 16 c = some d) ↔ c.isHexDigit := by
  simp only [digit?, Option.filter_eq_some_iff, hexDigit?_eq_some_iff, decide_eq_true_eq]
  rw [isHexDigit_iff]
  constructor
  · rintro ⟨d, h, -⟩
    omega
  · rintro (h | h | h)
    · exact ⟨c.toNat - 48, by omega⟩
    · exact ⟨c.toNat - 87, by omega⟩
    · exact ⟨c.toNat - 55, by omega⟩

theorem extend?_ten_eq_some_iff {digits : List Char} {n m : ℕ} :
    extend? 10 n digits = some m ↔
      (∀ c ∈ digits, c.isDigit) ∧ m = Nat.ofDigitChars 10 digits n := by
  induction digits generalizing n with
  | nil =>
    rw [extend?, Option.some_inj, Nat.ofDigitChars_nil, eq_comm]
    simp
  | cons c digits ih =>
    rw [extend?, Option.bind_eq_some_iff, List.forall_mem_cons, Nat.ofDigitChars_cons]
    constructor
    · rintro ⟨d, hd, h⟩
      obtain ⟨hc, rfl⟩ := digit?_ten_eq_some_iff.mp hd
      obtain ⟨hdigits, hm⟩ := ih.mp h
      exact ⟨⟨hc, hdigits⟩, hm⟩
    · rintro ⟨⟨hc, hdigits⟩, hm⟩
      exact ⟨_, digit?_ten_eq_some_iff.mpr ⟨hc, rfl⟩, ih.mpr ⟨hdigits, hm⟩⟩

/-- A number with so many digits, after those of `n`, is below the next number after `n` followed by
as many zeros. -/
theorem lt_of_extend? {base n m : ℕ} {digits : List Char} (h : extend? base n digits = some m) :
    m < (n + 1) * base ^ digits.length := by
  induction digits generalizing n with
  | nil =>
    obtain rfl := Option.some_inj.mp h
    simp
  | cons c digits ih =>
    obtain ⟨d, hd, h⟩ := Option.bind_eq_some_iff.mp h
    have hlt : d < base := of_decide_eq_true (Option.filter_eq_some_iff.mp hd).2
    calc m < (base * n + d + 1) * base ^ digits.length := ih h
      _ ≤ ((n + 1) * base) * base ^ digits.length := by
        refine Nat.mul_le_mul_right _ ?_
        calc base * n + d + 1 ≤ base * n + base := by omega
          _ = (n + 1) * base := by ring
      _ = (n + 1) * base ^ (c :: digits).length := by
        rw [List.length_cons, pow_succ']
        ring

theorem exists_extend?_sixteen_iff {digits : List Char} {n : ℕ} :
    (∃ m, extend? 16 n digits = some m) ↔ ∀ c ∈ digits, c.isHexDigit := by
  induction digits generalizing n with
  | nil => simp [extend?]
  | cons c digits ih =>
    rw [List.forall_mem_cons, ← digit?_sixteen_eq_some_iff]
    simp only [extend?, Option.bind_eq_some_iff]
    constructor
    · rintro ⟨m, d, hd, h⟩
      exact ⟨⟨d, hd⟩, ih.mp ⟨m, h⟩⟩
    · rintro ⟨⟨d, hd⟩, hdigits⟩
      obtain ⟨m, hm⟩ := ih.mpr hdigits
      exact ⟨m, d, hd, hm⟩

/-- One or more digits are read as the number they extend nothing to, if it is within the limit. -/
theorem read?_eq_some_iff {base limit n : ℕ} {digits : List Char} :
    read? base limit digits = some n ↔
      digits ≠ [] ∧ extend? base 0 digits = some n ∧ n ≤ limit := by
  cases digits with
  | nil => simp [read?]
  | cons c digits =>
    rw [read?, Option.filter_eq_some_iff, decide_eq_true_eq]
    · simp
    · simp

end Numeral

/-! ### The dotted form -/

namespace Ipv4

variable {text : List Char}

theorem isSome_octet?_iff : (octet? text).isSome ↔ IsOctet text := by
  rw [octet?]
  split
  next h =>
    rw [Option.isSome_map, Option.isSome_iff_exists]
    simp only [Numeral.read?_eq_some_iff, Numeral.extend?_ten_eq_some_iff]
    constructor
    · rintro ⟨n, hne, ⟨hdigits, rfl⟩, hvalue⟩
      refine ⟨⟨List.length_pos_iff.mpr hne, h.1⟩, hdigits, hvalue, fun hzero => ?_⟩
      obtain ⟨c, rfl⟩ := List.length_eq_one_iff.mp (h.2 hzero)
      rw [Option.some_inj.mp hzero]
    · intro hoctet
      exact ⟨_, List.length_pos_iff.mp hoctet.length.1, ⟨hoctet.digits, rfl⟩, hoctet.value⟩
  next h =>
    refine iff_of_false (by simp) fun hoctet => h ⟨hoctet.length.2, fun hzero => ?_⟩
    rw [hoctet.zero hzero]
    rfl

theorem isSome_parse?_iff_splitOn :
    (parse? text).isSome ↔
      (text.splitOn '.').length = 4 ∧ ∀ piece ∈ text.splitOn '.', IsOctet piece := by
  simp only [← isSome_octet?_iff]
  rw [parse?]
  split
  next a b c d hpieces =>
    simp [hpieces, Option.isSome_iff_exists, Option.bind_eq_some_iff]
  next hpieces =>
    refine iff_of_false (by simp) fun h => ?_
    obtain ⟨a, b, c, d, heq⟩ := List.length_eq_four.mp h.1
    exact hpieces a b c d heq

/-- A text in dotted form is read, and no other. -/
theorem isSome_parse?_iff : (parse? text).isSome ↔ IsText text := by
  rw [isSome_parse?_iff_splitOn]
  constructor
  · rintro ⟨hlength, hoctets⟩
    exact ⟨_, hlength, hoctets, (List.intercalate_splitOn '.').symm⟩
  · rintro ⟨octets, hlength, hoctets, rfl⟩
    have hdot : ∀ octet ∈ octets, '.' ∉ octet := by
      intro octet hoctet hmem
      exact absurd ((hoctets octet hoctet).digits '.' hmem) (by decide)
    rw [List.splitOn_intercalate '.' hdot (List.ne_nil_of_length_pos (by omega))]
    exact ⟨hlength, hoctets⟩

end Ipv4

/-! ### Groups and pieces -/

namespace Ipv6

variable {text before after piece : List Char} {ps : List (List Char)}

theorem isSome_group?_iff : (group? text).isSome ↔ IsGroup text := by
  rw [group?]
  split
  next h =>
    rw [Option.isSome_map, Option.isSome_iff_exists]
    simp only [Numeral.read?_eq_some_iff]
    constructor
    · rintro ⟨n, hne, hextend, -⟩
      exact ⟨⟨List.length_pos_iff.mpr hne, h⟩, Numeral.exists_extend?_sixteen_iff.mp ⟨n, hextend⟩⟩
    · intro hgroup
      obtain ⟨n, hn⟩ := Numeral.exists_extend?_sixteen_iff.mpr hgroup.digits
      refine ⟨n, List.length_pos_iff.mp hgroup.length.1, hn, ?_⟩
      -- four digits cannot exceed the limit
      have hlt : n < (0 + 1) * 16 ^ text.length := Numeral.lt_of_extend? hn
      have hpow : 16 ^ text.length ≤ 16 ^ 4 := Nat.pow_le_pow_right (by decide) h
      omega
  next h => exact iff_of_false (by simp) fun hgroup => h hgroup.length.2

/-- What can stand between two colons. -/
def IsPiece (piece : List Char) : Prop := piece ≠ [] ∧ ':' ∉ piece

theorem IsGroup.isPiece (h : IsGroup piece) : IsPiece piece :=
  ⟨List.length_pos_iff.mp h.length.1, fun hmem => absurd (h.digits ':' hmem) (by decide)⟩

theorem dot_mem_of_isText (h : Ipv4.IsText text) : '.' ∈ text := by
  obtain ⟨octets, hlength, -, rfl⟩ := h
  match octets with
  | [a, b, c, d] => simp

theorem isPiece_of_isText (h : Ipv4.IsText text) : IsPiece text := by
  refine ⟨List.ne_nil_of_mem (dot_mem_of_isText h), fun hmem => ?_⟩
  obtain ⟨octets, hlength, hoctets, rfl⟩ := h
  have hcolon : ∀ octet ∈ octets, ':' ∉ octet := by
    intro octet hoctet hmem
    exact absurd ((hoctets octet hoctet).digits ':' hmem) (by decide)
  match octets with
  | [a, b, c, d] => simp_all

theorem intercalate_pieces (text : List Char) : [':'].intercalate (pieces text) = text := by
  rw [pieces]
  split
  next h => rw [h, List.intercalate_nil]
  next => exact List.intercalate_splitOn ':'

theorem exists_intercalate_eq_cons (h : IsPiece piece) (ps : List (List Char)) :
    ∃ c tail, c ≠ ':' ∧ [':'].intercalate (piece :: ps) = c :: tail := by
  obtain ⟨c, rest, rfl⟩ := List.exists_cons_of_ne_nil h.1
  refine ⟨c, _, ?_, List.intercalate_cons_cons_left⟩
  rintro rfl
  exact h.2 List.mem_cons_self

/-- A text has no other pieces than those it is put together from. -/
theorem pieces_intercalate (h : ∀ piece ∈ ps, IsPiece piece) :
    pieces ([':'].intercalate ps) = ps := by
  cases ps with
  | nil => rfl
  | cons piece ps =>
    have hne : [':'].intercalate (piece :: ps) ≠ [] := by
      obtain ⟨c, tail, -, htail⟩ := exists_intercalate_eq_cons (h piece List.mem_cons_self) ps
      rw [htail]
      exact List.cons_ne_nil c tail
    rw [pieces, if_neg hne]
    exact List.splitOn_intercalate ':' (fun piece hpiece => (h piece hpiece).2) (by simp)

/-! ### The gap -/

theorem splitGap?_cons {c : Char} (h : c = ':' → text.head? ≠ some ':') :
    splitGap? (c :: text) = (splitGap? text).map fun gap => (c :: gap.1, gap.2) := by
  rw [splitGap?]
  rintro rest rfl rfl
  exact h rfl rfl

theorem splitGap?_append (h : ':' ∉ piece) (rest : List Char) :
    splitGap? (piece ++ rest) = (splitGap? rest).map fun gap => (piece ++ gap.1, gap.2) := by
  induction piece with
  | nil => simp
  | cons c piece ih =>
    rw [List.mem_cons, not_or] at h
    rw [List.cons_append, splitGap?_cons (fun hc => absurd hc.symm h.1), ih h.2, Option.map_map]
    rfl

/-- Before a text of pieces ends there is no gap. -/
theorem splitGap?_intercalate_append (h : ∀ piece ∈ ps, IsPiece piece) (rest : List Char) :
    splitGap? ([':'].intercalate ps ++ rest) =
      (splitGap? rest).map fun gap => ([':'].intercalate ps ++ gap.1, gap.2) := by
  induction ps with
  | nil => simp
  | cons piece ps ih =>
    obtain ⟨⟨-, hpiece⟩, hps⟩ := List.forall_mem_cons.mp h
    cases ps with
    | nil =>
      rw [List.intercalate_singleton]
      exact splitGap?_append hpiece rest
    | cons next ps =>
      -- the colon behind the piece is single, since another piece follows
      obtain ⟨hnext, -⟩ := List.forall_mem_cons.mp hps
      obtain ⟨c, tail, hc, htail⟩ := exists_intercalate_eq_cons hnext ps
      have hsingle : ([':'].intercalate (next :: ps) ++ rest).head? ≠ some ':' := by
        rw [htail]
        simpa using hc
      rw [List.intercalate_cons_cons, List.append_assoc, List.append_assoc,
        splitGap?_append hpiece, List.singleton_append, splitGap?_cons fun _ => hsingle, ih hps,
        Option.map_map, Option.map_map]
      simp [Function.comp_def]

theorem eq_append_of_splitGap? (h : splitGap? text = some (before, after)) :
    text = before ++ ':' :: ':' :: after := by
  fun_induction splitGap? text generalizing before after with
  | case1 rest =>
    cases h
    rfl
  | case2 c rest _ ih =>
    obtain ⟨⟨before', after'⟩, hgap, heq⟩ := Option.map_eq_some_iff.mp h
    cases heq
    rw [ih hgap]
    rfl
  | case3 => cases h

/-! ### Reading pieces -/

variable {n : ℕ}

theorem Closes.isPiece (h : Closes n ps) : ∀ piece ∈ ps, IsPiece piece := by
  rcases h with ⟨-, hgroups⟩ | ⟨groups, last, rfl, -, hgroups, hlast⟩
  · exact fun piece hpiece => (hgroups piece hpiece).isPiece
  · refine List.forall_mem_append.mpr ⟨fun group hgroup => (hgroups group hgroup).isPiece, ?_⟩
    exact List.forall_mem_singleton.mpr (isPiece_of_isText hlast)

theorem closes_cons_iff {next : List Char} :
    Closes n (piece :: next :: ps) ↔ IsGroup piece ∧ ∃ m, m + 1 = n ∧ Closes m (next :: ps) := by
  constructor
  · rintro (⟨rfl, hgroups⟩ | ⟨_ | ⟨group, groups⟩, last, hps, rfl, hgroups, hlast⟩)
    · obtain ⟨hpiece, hps⟩ := List.forall_mem_cons.mp hgroups
      exact ⟨hpiece, _, rfl, .inl ⟨rfl, hps⟩⟩
    · cases hps
    · obtain ⟨rfl, hrest⟩ := List.cons.inj hps
      obtain ⟨hpiece, hgroups⟩ := List.forall_mem_cons.mp hgroups
      exact ⟨hpiece, groups.length + 2, rfl, .inr ⟨groups, last, hrest, rfl, hgroups, hlast⟩⟩
  · rintro ⟨hpiece, m, rfl, ⟨rfl, hps⟩ | ⟨groups, last, hps, rfl, hgroups, hlast⟩⟩
    · exact .inl ⟨rfl, List.forall_mem_cons.mpr ⟨hpiece, hps⟩⟩
    · refine .inr ⟨piece :: groups, last, by rw [hps]; rfl, rfl, ?_, hlast⟩
      exact List.forall_mem_cons.mpr ⟨hpiece, hgroups⟩

theorem closes_singleton_iff :
    Closes n [piece] ↔ IsGroup piece ∧ n = 1 ∨ Ipv4.IsText piece ∧ n = 2 := by
  constructor
  · rintro (⟨rfl, hgroups⟩ | ⟨_ | ⟨group, groups⟩, last, hps, rfl, -, hlast⟩)
    · exact .inl ⟨hgroups piece List.mem_cons_self, rfl⟩
    · obtain ⟨rfl, -⟩ := List.cons.inj hps
      exact .inr ⟨hlast, rfl⟩
    · cases groups <;> cases (List.cons.inj hps).2
  · rintro (⟨hpiece, rfl⟩ | ⟨hpiece, rfl⟩)
    · exact .inl ⟨rfl, List.forall_mem_singleton.mpr hpiece⟩
    · exact .inr ⟨[], piece, rfl, rfl, by simp, hpiece⟩

/-- A first item and some more make a list that is longer by one. -/
theorem exists_cons_iff {α : Type} {first : Option α} {more : Option (List α)} :
    (∃ items, (do return (← first) :: (← more)) = some items ∧ items.length = n) ↔
      first.isSome ∧ ∃ m, m + 1 = n ∧ ∃ items, more = some items ∧ items.length = m := by
  cases first <;> cases more <;> simp [eq_comm]

/-- Plain groups are read from pieces that are groups. -/
theorem exists_plainGroups?_iff :
    (∃ groups, plainGroups? ps = some groups ∧ groups.length = n) ↔
      ps.length = n ∧ ∀ piece ∈ ps, IsGroup piece := by
  induction ps generalizing n with
  | nil => simp [plainGroups?]
  | cons piece ps ih =>
    rw [plainGroups?, List.mapM_cons, ← plainGroups?]
    refine exists_cons_iff.trans ?_
    simp only [ih, isSome_group?_iff, List.forall_mem_cons, List.length_cons]
    constructor
    · rintro ⟨hpiece, m, rfl, rfl, hps⟩
      exact ⟨rfl, hpiece, hps⟩
    · rintro ⟨rfl, hpiece, hps⟩
      exact ⟨hpiece, _, rfl, rfl, hps⟩

/-- Closing groups are read from pieces that are groups, or groups and an IPv4 address. -/
theorem exists_closingGroups?_iff :
    (∃ groups, closingGroups? ps = some groups ∧ groups.length = n) ↔ Closes n ps := by
  induction ps generalizing n with
  | nil => simp [closingGroups?, Closes]
  | cons piece ps ih =>
    cases ps with
    | nil =>
      rw [closes_singleton_iff, ← isSome_group?_iff, ← Ipv4.isSome_parse?_iff, closingGroups?]
      rcases hgroup : group? piece with _ | group
      · cases Ipv4.parse? piece <;> simp [Ipv4.groups, eq_comm]
      · -- a group has no dots, so it is no address as well
        have hparse : Ipv4.parse? piece = none := by
          rw [← Option.not_isSome_iff_eq_none, Ipv4.isSome_parse?_iff]
          intro htext
          have hdigits := (isSome_group?_iff.mp (Option.isSome_of_eq_some hgroup)).digits
          exact absurd (hdigits '.' (dot_mem_of_isText htext)) (by decide)
        simp [hparse, eq_comm]
    | cons next ps =>
      rw [closes_cons_iff, ← isSome_group?_iff, closingGroups?]
      · refine exists_cons_iff.trans ?_
        simp only [ih]
      · exact List.cons_ne_nil next ps

/-! ### The colon form -/

theorem exists_intercalate_iff {p : List (List Char) → Prop}
    (hpieces : ∀ ps, p ps → ∀ piece ∈ ps, IsPiece piece) :
    (∃ ps, p ps ∧ text = [':'].intercalate ps) ↔ p (pieces text) := by
  constructor
  · rintro ⟨ps, hps, rfl⟩
    rwa [pieces_intercalate (hpieces ps hps)]
  · intro h
    exact ⟨_, h, (intercalate_pieces text).symm⟩

theorem isGroups_iff :
    IsGroups n text ↔ ∃ groups, plainGroups? (pieces text) = some groups ∧ groups.length = n := by
  rw [exists_plainGroups?_iff, IsGroups]
  refine exists_intercalate_iff ?_
  rintro ps ⟨-, hgroups⟩ piece hpiece
  exact (hgroups piece hpiece).isPiece

theorem isClosing_iff :
    IsClosing n text ↔
      ∃ groups, closingGroups? (pieces text) = some groups ∧ groups.length = n := by
  rw [exists_closingGroups?_iff]
  exact exists_intercalate_iff fun ps hps => hps.isPiece

theorem splitGap?_of_isClosing (h : IsClosing n text) : splitGap? text = none := by
  obtain ⟨ps, hps, rfl⟩ := h
  simpa [splitGap?] using splitGap?_intercalate_append hps.isPiece []

theorem splitGap?_of_isGroups (h : IsGroups n before) (after : List Char) :
    splitGap? (before ++ ':' :: ':' :: after) = some (before, after) := by
  obtain ⟨ps, ⟨-, hps⟩, rfl⟩ := h
  rw [splitGap?_intercalate_append fun piece hpiece => (hps piece hpiece).isPiece, splitGap?]
  simp

theorem isSome_parse?_of_eq_none (h : splitGap? text = none) :
    (parse? text).isSome ↔ IsClosing 8 text := by
  rw [isClosing_iff, parse?, h]
  simp [Option.isSome_iff_exists, Option.bind_eq_some_iff, and_comm]

theorem isSome_parse?_of_eq_some (h : splitGap? text = some (before, after)) :
    (parse? text).isSome ↔ ∃ m n, m + n < 8 ∧ IsGroups m before ∧ IsClosing n after := by
  simp only [isGroups_iff, isClosing_iff]
  rw [parse?, h]
  constructor
  · intro hsome
    obtain ⟨address, haddress⟩ := Option.isSome_iff_exists.mp hsome
    obtain ⟨left, hleft, haddress⟩ := Option.bind_eq_some_iff.mp haddress
    obtain ⟨right, hright, haddress⟩ := Option.bind_eq_some_iff.mp haddress
    obtain ⟨hlt, -⟩ := Option.dite_none_right_eq_some.mp haddress
    exact ⟨_, _, hlt, ⟨left, hleft, rfl⟩, right, hright, rfl⟩
  · rintro ⟨_, _, hlt, ⟨left, hleft, rfl⟩, right, hright, rfl⟩
    simp [hleft, hright, hlt]

/-- A text in colon form is read, and no other. -/
theorem isSome_parse?_iff : (parse? text).isSome ↔ IsText text := by
  constructor
  · intro h
    rcases hgap : splitGap? text with _ | ⟨before, after⟩
    · exact .inl ((isSome_parse?_of_eq_none hgap).mp h)
    · obtain ⟨m, n, hlt, hbefore, hafter⟩ := (isSome_parse?_of_eq_some hgap).mp h
      exact .inr ⟨m, n, before, after, hlt, hbefore, hafter, eq_append_of_splitGap? hgap⟩
  · rintro (h | ⟨m, n, before, after, hlt, hbefore, hafter, rfl⟩)
    · exact (isSome_parse?_of_eq_none (splitGap?_of_isClosing h)).mpr h
    · exact (isSome_parse?_of_eq_some (splitGap?_of_isGroups hbefore after)).mpr
        ⟨m, n, hlt, hbefore, hafter⟩

/-- A gap may stand for one group, but not for none. -/
example : (parse? "1:2:3:4:5:6:7::".toList).isSome = true ∧
    (parse? "1:2:3:4::5:6:7:8".toList).isSome = false := by
  decide +kernel

end Ipv6

end PskHandshake
