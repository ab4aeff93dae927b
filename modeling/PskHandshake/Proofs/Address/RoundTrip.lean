/-
Every endpoint is read back from its text.

A text is put together from numerals and from symbols that are no digits, so a reader finds the
numerals again between the symbols.  The colon form leaves out a run of zero groups; what is left
says how many were in it.

* `Numeral.read?_toDigits` — a number is read back from its digits;
* `Ipv4.parse?_render`, `Ipv6.parse?_render` — an address is read back from its form;
* `Endpoint.parse?_text` — an endpoint is read back from its text, so texts tell endpoints apart
  (`Endpoint.text_injective`);
* `Endpoint.hexDigit_or_symbol_of_mem_chars` — the characters of a text.
-/
import PskHandshake.Address
import PskHandshake.Proofs.Address.Grammar

namespace PskHandshake

/-! ### Texts put together -/

/-- What stands in pieces with a separator between them stands in the separator or in a piece. -/
theorem mem_or_exists_of_mem_intercalate {α : Type} {sep : List α} {pieces : List (List α)} {a : α}
    (h : a ∈ sep.intercalate pieces) : a ∈ sep ∨ ∃ piece ∈ pieces, a ∈ piece := by
  induction pieces with
  | nil => cases h
  | cons piece pieces ih =>
    cases pieces with
    | nil =>
      rw [List.intercalate_singleton] at h
      exact .inr ⟨piece, List.mem_cons_self, h⟩
    | cons next pieces =>
      rw [List.intercalate_cons_cons, List.append_assoc, List.mem_append, List.mem_append] at h
      rcases h with hpiece | hsep | hrest
      · exact .inr ⟨piece, List.mem_cons_self, hpiece⟩
      · exact .inl hsep
      · obtain hsep | ⟨piece', hpiece', ha⟩ := ih hrest
        · exact .inl hsep
        · exact .inr ⟨piece', List.mem_cons_of_mem _ hpiece', ha⟩

/-- A text is found again in front of the first symbol that it does not hold. -/
theorem span_append_symbol {symbol : Char} {text : List Char} (h : symbol ∉ text)
    (rest : List Char) :
    (text ++ symbol :: rest).span (· != symbol) = (text, symbol :: rest) := by
  have hne : ∀ c ∈ text, (c != symbol) = true := by
    intro c hc
    exact bne_iff_ne.mpr (ne_of_mem_of_not_mem hc h)
  rw [List.span_eq_takeWhile_dropWhile, List.takeWhile_append_of_pos hne,
    List.dropWhile_append_of_pos hne]
  simp

theorem span_of_notMem {symbol : Char} {text : List Char} (h : symbol ∉ text) :
    text.span (· != symbol) = (text, []) := by
  have hne : ∀ c ∈ text, (c != symbol) = true := by
    intro c hc
    exact bne_iff_ne.mpr (ne_of_mem_of_not_mem hc h)
  rw [List.span_eq_takeWhile_dropWhile, List.takeWhile_eq_self_iff.mpr hne,
    List.dropWhile_eq_nil_iff.mpr hne]

/-! ### Numerals -/

namespace Numeral

variable {base n : ℕ}

theorem digit?_digitChar {d : ℕ} (hbase : base ≤ 16) (hd : d < base) :
    digit? base d.digitChar = some d := by
  have hhex : ∀ d : Fin 16, hexDigit? (Nat.digitChar d) = some d.val := by decide
  rw [digit?, hhex ⟨d, by omega⟩]
  simp [Option.filter, hd]

theorem extend?_append (digits more : List Char) :
    extend? base n (digits ++ more) =
      (extend? base n digits).bind fun m => extend? base m more := by
  induction digits generalizing n with
  | nil => rfl
  | cons c digits ih =>
    rw [List.cons_append, extend?, extend?, Option.bind_assoc]
    exact Option.bind_congr fun d _ => ih

theorem extend?_toDigits (hpos : 1 < base) (hbase : base ≤ 16) (n : ℕ) :
    extend? base 0 (Nat.toDigits base n) = some n := by
  induction n using Nat.base_induction base hpos with
  | single d hd =>
    rw [Nat.toDigits_of_lt_base hd, extend?, digit?_digitChar hbase hd]
    simp [extend?]
  | digit m d hd hm ih =>
    rw [← Nat.toDigits_append_toDigits hpos hm hd, Nat.toDigits_of_lt_base hd, extend?_append, ih,
      Option.bind_some, extend?, digit?_digitChar hbase hd]
    rfl

/-- A number within the limit is read back from its digits. -/
theorem read?_toDigits {limit : ℕ} (hpos : 1 < base) (hbase : base ≤ 16) (h : n ≤ limit) :
    read? base limit (Nat.toDigits base n) = some n :=
  read?_eq_some_iff.mpr ⟨Nat.toDigits_ne_nil, extend?_toDigits hpos hbase n, h⟩

/-- Only the digits of zero begin with a zero. -/
theorem eq_zero_of_head?_toDigits (hpos : 1 < base)
    (h : (Nat.toDigits base n).head? = some '0') : n = 0 := by
  induction n using Nat.base_induction base hpos with
  | single d hd =>
    rw [Nat.toDigits_of_lt_base hd, List.head?_cons, Option.some_inj] at h
    exact Nat.digitChar_eq_zero.mp h
  | digit m d hd hm ih =>
    rw [← Nat.toDigits_append_toDigits hpos hm hd,
      List.head?_append_of_ne_nil _ Nat.toDigits_ne_nil] at h
    exact absurd (ih h) hm.ne'

theorem isHexDigit_of_mem_toDigits {c : Char} (h : c ∈ Nat.toDigits 16 n) : c.isHexDigit :=
  exists_extend?_sixteen_iff.mp ⟨n, extend?_toDigits (by decide) le_rfl n⟩ c h

theorem isHexDigit_of_isDigit {c : Char} (h : c.isDigit) : c.isHexDigit :=
  (isHexDigit_iff c).mpr (.inl (Char.isDigit_iff_toNat.mp h))

theorem isDigit_of_mem_toDigits {c : Char} (h : c ∈ Nat.toDigits 10 n) : c.isDigit :=
  Nat.isDigit_of_mem_toDigits (by decide) (by decide) h

end Numeral

/-! ### The dotted form -/

namespace Ipv4

theorem octet?_toDigits (octet : UInt8) : octet? (Nat.toDigits 10 octet.toNat) = some octet := by
  have hle : octet.toNat ≤ 255 := Nat.le_of_lt_succ octet.toNat_lt
  have hlength : (Nat.toDigits 10 octet.toNat).length ≤ 3 :=
    (Nat.length_toDigits_le_iff (by decide) (by decide)).mpr (by omega)
  rw [octet?, if_pos, Numeral.read?_toDigits (by decide) (by decide) hle, Option.map_some,
    UInt8.ofNat_toNat]
  refine ⟨hlength, fun hzero => ?_⟩
  rw [Numeral.eq_zero_of_head?_toDigits (by decide) hzero]
  rfl

/-- An address is read back from its dotted form. -/
theorem parse?_render (address : Ipv4) : parse? address.render = some address := by
  have hdot : ∀ octet ∈ [address.a, address.b, address.c, address.d].map
      fun octet => Nat.toDigits 10 octet.toNat, '.' ∉ octet := by
    intro digits hdigits hmem
    obtain ⟨octet, -, rfl⟩ := List.mem_map.mp hdigits
    exact absurd (Numeral.isDigit_of_mem_toDigits hmem) (by decide)
  rw [parse?, render, List.splitOn_intercalate '.' hdot (by simp)]
  simp [octet?_toDigits]

theorem digit_or_dot_of_mem_render {address : Ipv4} {c : Char} (h : c ∈ address.render) :
    c.isDigit ∨ c = '.' := by
  obtain hdot | ⟨digits, hdigits, hc⟩ := mem_or_exists_of_mem_intercalate h
  · exact .inr (List.mem_singleton.mp hdot)
  · obtain ⟨octet, -, rfl⟩ := List.mem_map.mp hdigits
    exact .inl (Numeral.isDigit_of_mem_toDigits hc)

end Ipv4

/-! ### The colon form -/

namespace Ipv6

variable {address : Ipv6} {left right groups : List UInt16}

theorem group?_toDigits (group : UInt16) : group? (Nat.toDigits 16 group.toNat) = some group := by
  have hle : group.toNat ≤ 65535 := Nat.le_of_lt_succ group.toNat_lt
  have hlength : (Nat.toDigits 16 group.toNat).length ≤ 4 :=
    (Nat.length_toDigits_le_iff (by decide) (by decide)).mpr (by omega)
  rw [group?, if_pos hlength, Numeral.read?_toDigits (by decide) le_rfl hle, Option.map_some,
    UInt16.ofNat_toNat]

/-- The digits of groups, which colons are put between. -/
def digits (groups : List UInt16) : List (List Char) :=
  groups.map fun group => Nat.toDigits 16 group.toNat

theorem isGroup_of_mem_digits {piece : List Char} (h : piece ∈ digits groups) : IsGroup piece := by
  obtain ⟨group, -, rfl⟩ := List.mem_map.mp h
  exact isSome_group?_iff.mp (Option.isSome_of_eq_some (group?_toDigits group))

theorem isPiece_of_mem_digits {piece : List Char} (h : piece ∈ digits groups) : IsPiece piece :=
  (isGroup_of_mem_digits h).isPiece

theorem pieces_renderGroups (groups : List UInt16) : pieces (renderGroups groups) = digits groups :=
  pieces_intercalate fun _ => isPiece_of_mem_digits

theorem plainGroups?_digits (groups : List UInt16) :
    plainGroups? (digits groups) = some groups := by
  induction groups with
  | nil => rfl
  | cons group groups ih =>
    rw [digits, List.map_cons, ← digits, plainGroups?, List.mapM_cons, ← plainGroups?, ih,
      group?_toDigits]
    rfl

theorem closingGroups?_digits (groups : List UInt16) :
    closingGroups? (digits groups) = some groups := by
  induction groups with
  | nil => rfl
  | cons group groups ih =>
    cases groups with
    | nil =>
      rw [digits, List.map_singleton, closingGroups?, group?_toDigits]
      rfl
    | cons next groups =>
      rw [digits, List.map_cons, ← digits, closingGroups?, ih, group?_toDigits]
      · rfl
      · exact List.cons_ne_nil _ _

/-- Eight groups are read back from their form without a gap. -/
theorem parse?_renderGroups (address : Ipv6) :
    parse? (renderGroups address.groups) = some address := by
  have hgap : splitGap? (renderGroups address.groups) = none := by
    have hpieces : ∀ piece ∈ digits address.groups, IsPiece piece :=
      fun _ => isPiece_of_mem_digits
    have hnil := splitGap?_intercalate_append hpieces []
    rw [List.append_nil] at hnil
    exact hnil
  rw [parse?, hgap]
  simp [pieces_renderGroups, closingGroups?_digits, address.length_groups]

/-- Groups around a gap are read back, and the gap as zeros. -/
theorem parse?_of_gap {zeros : ℕ} (hzeros : zeros ≠ 0)
    (h : address.groups = left ++ List.replicate zeros 0 ++ right) :
    parse? (renderGroups left ++ "::".toList ++ renderGroups right) = some address := by
  have hgap : splitGap? (renderGroups left ++ "::".toList ++ renderGroups right) =
      some (renderGroups left, renderGroups right) := by
    have hpieces : ∀ piece ∈ digits left, IsPiece piece := fun _ => isPiece_of_mem_digits
    rw [List.append_assoc]
    refine (splitGap?_intercalate_append hpieces _).trans ?_
    exact congrArg (fun text => some (text, renderGroups right)) (List.append_nil _)
  have hlength : left.length + zeros + right.length = 8 := by
    rw [← address.length_groups, h, List.length_append, List.length_append, List.length_replicate]
  -- the gap stands for as many groups as are missing
  have hmissing : 8 - left.length - right.length = zeros := by omega
  have hlt : left.length + right.length < 8 := by omega
  rw [parse?, hgap]
  simp only [pieces_renderGroups, plainGroups?_digits, closingGroups?_digits, Option.bind_eq_bind,
    Option.bind_some]
  rw [dif_pos hlt, Option.some_inj]
  obtain ⟨groups, hgroups⟩ := address
  rw [mk.injEq, hmissing]
  exact h.symm

theorem closingGroups?_singleton_render (inner : Ipv4) :
    closingGroups? [inner.render] = some inner.groups := by
  have htext : Ipv4.IsText inner.render :=
    Ipv4.isSome_parse?_iff.mp (Option.isSome_of_eq_some (Ipv4.parse?_render inner))
  have hgroup : group? inner.render = none := by
    rw [← Option.not_isSome_iff_eq_none, isSome_group?_iff]
    intro hgroup
    exact absurd (hgroup.digits '.' (dot_mem_of_isText htext)) (by decide)
  rw [closingGroups?, hgroup, Ipv4.parse?_render]
  rfl

theorem groups_of_mapped? {inner : Ipv4} (h : address.mapped? = some inner) :
    address.groups = [0, 0, 0, 0, 0] ++ 0xffff :: inner.groups := by
  rw [mapped?] at h
  split at h
  next high low hgroups =>
    obtain rfl := Option.some_inj.mp h
    have hword : ∀ word : UInt16, (word / 256).toUInt8.toUInt16 * 256 + word.toUInt8.toUInt16 =
        word := by
      intro word
      have := word.toNat_lt
      rw [← UInt16.toNat_inj]
      simp only [UInt16.toNat_add, UInt16.toNat_mul, UInt8.toNat_toUInt16, UInt16.toNat_toUInt8,
        UInt16.toNat_div, UInt16.reduceToNat]
      omega
    rw [hgroups, Ipv4.groups, hword, hword]
    rfl
  next => cases h

/-- An IPv4-mapped address is read back from the form that shows the IPv4 address. -/
theorem parse?_of_mapped {inner : Ipv4} (h : address.mapped? = some inner) :
    parse? ("::ffff:".toList ++ inner.render) = some address := by
  have hffff : group? "ffff".toList = some 0xffff := by decide
  have hinner : IsPiece inner.render := isPiece_of_isText
    (Ipv4.isSome_parse?_iff.mp (Option.isSome_of_eq_some (Ipv4.parse?_render inner)))
  have hpieces : pieces ("ffff:".toList ++ inner.render) = ["ffff".toList, inner.render] := by
    have htext : "ffff:".toList ++ inner.render =
        [':'].intercalate ["ffff".toList, inner.render] := by
      rw [List.intercalate_cons_cons, List.intercalate_singleton]
      rfl
    rw [htext]
    refine pieces_intercalate ?_
    have hgroup : IsGroup "ffff".toList :=
      isSome_group?_iff.mp (Option.isSome_of_eq_some hffff)
    simpa using ⟨hgroup.isPiece, hinner⟩
  have hgap : splitGap? ("::ffff:".toList ++ inner.render) =
      some ([], "ffff:".toList ++ inner.render) := rfl
  have hclosing : closingGroups? ["ffff".toList, inner.render] = some (0xffff :: inner.groups) := by
    rw [closingGroups?, hffff, closingGroups?_singleton_render]
    · rfl
    · exact List.cons_ne_nil _ _
  have hgroups := groups_of_mapped? h
  rw [parse?, hgap]
  simp only [hpieces, hclosing]
  rcases address with ⟨groups, hlength⟩
  subst hgroups
  rfl

theorem eq_append_zeros_append (groups : List UInt16) (start : ℕ) :
    groups = groups.take start ++ List.replicate (zerosFrom groups start) 0 ++
      groups.drop (start + zerosFrom groups start) := by
  set rest := groups.drop start with hrest
  have hzeros : rest.takeWhile (· == 0) = List.replicate (zerosFrom groups start) 0 := by
    refine List.eq_replicate_iff.mpr ⟨rfl, fun group hgroup => ?_⟩
    simpa using List.mem_takeWhile_imp hgroup
  have hdrop : rest.dropWhile (· == 0) = groups.drop (start + zerosFrom groups start) := by
    rw [← List.drop_drop, ← hrest]
    conv_rhs => rw [← List.takeWhile_append_dropWhile (p := (· == 0)) (l := rest)]
    exact (List.drop_left).symm
  rw [List.append_assoc, ← hzeros, ← hdrop, List.takeWhile_append_dropWhile, hrest,
    List.take_append_drop]

/-- An address is read back from its colon form. -/
theorem parse?_render (address : Ipv6) : parse? address.render = some address := by
  rw [render]
  split
  next inner hinner => exact parse?_of_mapped hinner
  next =>
    dsimp only
    split
    next hzeros =>
      exact parse?_of_gap (by omega) (eq_append_zeros_append address.groups _)
    next => exact parse?_renderGroups address

theorem hexDigit_or_colon_of_mem_renderGroups {c : Char} (h : c ∈ renderGroups groups) :
    c.isHexDigit ∨ c = ':' := by
  obtain hcolon | ⟨digits, hdigits, hc⟩ := mem_or_exists_of_mem_intercalate h
  · exact .inr (List.mem_singleton.mp hcolon)
  · obtain ⟨group, -, rfl⟩ := List.mem_map.mp hdigits
    exact .inl (Numeral.isHexDigit_of_mem_toDigits hc)

/-- The characters of a colon form. -/
theorem hexDigit_or_symbol_of_mem_render {c : Char} (h : c ∈ address.render) :
    c.isHexDigit ∨ c = ':' ∨ c = '.' := by
  have hgroups : ∀ {groups}, c ∈ renderGroups groups → c.isHexDigit ∨ c = ':' ∨ c = '.' := by
    intro groups hc
    exact (hexDigit_or_colon_of_mem_renderGroups hc).imp_right .inl
  rw [render] at h
  split at h
  next inner _ =>
    rcases List.mem_append.mp h with hc | hc
    · have hffff : ∀ c ∈ "::ffff:".toList, c.isHexDigit ∨ c = ':' := by
        simp [Char.isHexDigit]
      exact (hffff c hc).imp_right .inl
    · exact (Ipv4.digit_or_dot_of_mem_render hc).imp Numeral.isHexDigit_of_isDigit .inr
  next =>
    dsimp only at h
    split at h
    · rcases List.mem_append.mp h with hc | hc
      · rcases List.mem_append.mp hc with hc | hc
        · exact hgroups hc
        · have hgap : ∀ c ∈ "::".toList, c = ':' := by simp
          exact .inr (.inl (hgap c hc))
      · exact hgroups hc
    · exact hgroups h

end Ipv6

/-! ### Endpoints -/

namespace Endpoint

theorem service?_toDigits (service : PortNumber) :
    service? (Nat.toDigits 10 service.toNat) = some service := by
  have hle : service.toNat ≤ 65535 := Nat.le_of_lt_succ service.toNat_lt
  rw [service?, Numeral.read?_toDigits (by decide) (by decide) hle, Option.map_some,
    UInt16.ofNat_toNat]

theorem scope?_toDigits (scope : UInt32) :
    scope? (Nat.toDigits 10 scope.toNat) = some scope := by
  have hle : scope.toNat ≤ 4294967295 := Nat.le_of_lt_succ scope.toNat_lt
  rw [scope?, Numeral.read?_toDigits (by decide) (by decide) hle, Option.map_some,
    UInt32.ofNat_toNat]

/-- What stands between the brackets: an address, and its scope unless that is zero. -/
def inner (address : Ipv6) (scope : UInt32) : List Char :=
  address.render ++ if scope = 0 then [] else '%' :: Nat.toDigits 10 scope.toNat

theorem scoped?_inner (address : Ipv6) (scope : UInt32) :
    scoped? (inner address scope) = some (address, scope) := by
  have hpercent : '%' ∉ address.render := by
    intro hmem
    exact absurd (Ipv6.hexDigit_or_symbol_of_mem_render hmem) (by decide)
  rw [scoped?, inner]
  split_ifs with hscope
  · rw [List.append_nil, span_of_notMem hpercent]
    simp [Ipv6.parse?_render, hscope]
  · rw [span_append_symbol hpercent]
    simp [Ipv6.parse?_render, scope?_toDigits]

theorem hexDigit_or_symbol_of_mem_inner {address : Ipv6} {scope : UInt32} {c : Char}
    (h : c ∈ inner address scope) : c.isHexDigit ∨ c ∈ [':', '.', '%'] := by
  rcases List.mem_append.mp h with hc | hc
  · rcases Ipv6.hexDigit_or_symbol_of_mem_render hc with hc | rfl | rfl
    · exact .inl hc
    · exact .inr (by decide)
    · exact .inr (by decide)
  · split_ifs at hc
    · cases hc
    · rcases List.mem_cons.mp hc with rfl | hc
      · exact .inr (by decide)
      · exact .inl (Numeral.isHexDigit_of_isDigit (Numeral.isDigit_of_mem_toDigits hc))

theorem chars_ipv6 (address : Ipv6) (service : PortNumber) (scope : UInt32) :
    chars (.ipv6 address service scope) =
      '[' :: (inner address scope ++ ']' :: ':' :: Nat.toDigits 10 service.toNat) := by
  simp [chars, inner]

/-- The characters of an endpoint: digits, and symbols that are no letters. -/
theorem hexDigit_or_symbol_of_mem_chars {endpoint : Endpoint} {c : Char} (h : c ∈ endpoint.chars) :
    c.isHexDigit ∨ c ∈ [':', '.', '%', '[', ']'] := by
  have hservice : ∀ {service : PortNumber}, c ∈ Nat.toDigits 10 service.toNat →
      c.isHexDigit ∨ c ∈ [':', '.', '%', '[', ']'] := by
    intro service hc
    exact .inl (Numeral.isHexDigit_of_isDigit (Numeral.isDigit_of_mem_toDigits hc))
  cases endpoint with
  | ipv4 address service =>
    rcases List.mem_append.mp h with hc | hc
    · rcases Ipv4.digit_or_dot_of_mem_render hc with hc | rfl
      · exact .inl (Numeral.isHexDigit_of_isDigit hc)
      · exact .inr (by decide)
    · rcases List.mem_cons.mp hc with rfl | hc
      · exact .inr (by decide)
      · exact hservice hc
  | ipv6 address service scope =>
    rw [chars_ipv6, List.mem_cons, List.mem_append, List.mem_cons, List.mem_cons] at h
    rcases h with rfl | hc | rfl | rfl | hc
    · exact .inr (by decide)
    · exact (hexDigit_or_symbol_of_mem_inner hc).imp_right fun hc =>
        List.mem_append_left ['[', ']'] hc
    · exact .inr (by decide)
    · exact .inr (by decide)
    · exact hservice hc

/-- An endpoint is read back from its text. -/
theorem parse?_text (endpoint : Endpoint) : parse? endpoint.text = some endpoint := by
  rw [parse?, text, String.toList_ofList]
  cases endpoint with
  | ipv4 address service =>
    have hcolon : ':' ∉ address.render := by
      intro hmem
      exact absurd (Ipv4.digit_or_dot_of_mem_render hmem) (by decide)
    -- the address does not begin with a bracket, which would announce the other family
    have hbracket : ∀ text, address.render ++ ':' :: Nat.toDigits 10 service.toNat = '[' :: text →
        False := by
      intro text htext
      have hmem : '[' ∈ address.render ++ ':' :: Nat.toDigits 10 service.toNat := by
        rw [htext]
        exact List.mem_cons_self
      rcases List.mem_append.mp hmem with hc | hc
      · exact absurd (Ipv4.digit_or_dot_of_mem_render hc) (by decide)
      · rcases List.mem_cons.mp hc with hc | hc
        · cases hc
        · exact absurd (Numeral.isDigit_of_mem_toDigits hc) (by decide)
    rw [chars, ofChars?, span_append_symbol hcolon]
    · simp [Ipv4.parse?_render, service?_toDigits]
    · exact hbracket
  | ipv6 address service scope =>
    have hbracket : ']' ∉ inner address scope := by
      intro hmem
      exact absurd (hexDigit_or_symbol_of_mem_inner hmem) (by decide)
    rw [chars_ipv6, ofChars?, span_append_symbol hbracket]
    simp [scoped?_inner, service?_toDigits]

/-- Different endpoints have different texts. -/
theorem text_injective : Function.Injective text := by
  intro endpoint endpoint' h
  rw [← Option.some_inj, ← parse?_text endpoint, h, parse?_text]

/-- Of the texts of an endpoint, one is its own. -/
example : (parse? "[0:0:0::102:304%0]:05684").map text = some "[::102:304]:5684" ∧
    (parse? "[0:0::ffff:102:304%07]:0").map text = some "[::ffff:1.2.3.4%7]:0" := by
  decide +kernel

end Endpoint

end PskHandshake
