import Mathlib
import TableLoad.Text.Utf8

namespace TableLoad.Text.Utf8

section Encoding

theorem toList_loop (bytes : ByteArray) (i : Nat) (acc : List UInt8) :
    ByteArray.toList.loop bytes i acc = acc.reverse ++ bytes.data.toList.drop i := by
  fun_induction ByteArray.toList.loop bytes i acc with
  | case1 i acc hlt ih =>
    have hi : i < bytes.data.toList.length := by simpa using hlt
    rw [ih, List.drop_eq_getElem_cons hi, List.reverse_cons, List.append_assoc]
    simp [ByteArray.get!, getElem!_pos, hlt]
  | case2 i acc hge =>
    have hi : bytes.data.toList.length ≤ i := by simpa using hge
    rw [List.drop_eq_nil_of_le hi, List.append_nil]

theorem encode_eq (s : String) : encode s = s.toList.flatMap String.utf8EncodeChar := by
  conv_lhs => rw [← String.ofList_toList (s := s)]
  rw [encode, String.toUTF8, String.toByteArray_ofList, ByteArray.toList, toList_loop]
  simp [List.utf8Encode]

theorem encode_ofList (cs : List Char) :
    encode (String.ofList cs) = cs.flatMap String.utf8EncodeChar := by
  rw [encode_eq, String.toList_ofList]

theorem encode_empty : encode "" = [] :=
  encode_ofList []

theorem encode_append (s t : String) : encode (s ++ t) = encode s ++ encode t := by
  rw [encode_eq, encode_eq, encode_eq, String.toList_append, List.flatMap_append]

theorem encode_intercalate (separator : String) (texts : List String) :
    encode (separator.intercalate texts) = (encode separator).intercalate (texts.map encode) := by
  induction texts with
  | nil => exact encode_empty
  | cons text texts ih =>
    cases texts with
    | nil => simp
    | cons next texts =>
      rw [String.intercalate_cons_cons, encode_append, encode_append, ih]
      simp only [List.map_cons, List.intercalate_cons_cons]

end Encoding

section Characters

variable {c : Char}

theorem octets_ascii (h : c.toNat < 0x80) :
    String.utf8EncodeChar c = [UInt8.ofNat c.toNat] := by
  have hle : c.val.toNat ≤ 127 := Nat.le_of_lt_succ h
  simp only [String.utf8EncodeChar, hle, if_true]
  rfl

theorem toNat_octet {n : Nat} (h : n < 256) : (UInt8.ofNat n).toNat = n := by
  simpa using h

theorem octets_large (h : 0x80 ≤ c.toNat) {b : UInt8} (hb : b ∈ String.utf8EncodeChar c) :
    0x80 ≤ b.toNat := by
  have hgt : ¬ c.val.toNat ≤ 127 := Nat.not_le.mpr h
  simp only [String.utf8EncodeChar, hgt, if_false] at hb
  split at hb
  · simp only [List.mem_cons, List.not_mem_nil, or_false] at hb
    rcases hb with rfl | rfl <;> rw [toNat_octet (by omega)] <;> omega
  · split at hb
    · simp only [List.mem_cons, List.not_mem_nil, or_false] at hb
      rcases hb with rfl | rfl | rfl <;> rw [toNat_octet (by omega)] <;> omega
    · simp only [List.mem_cons, List.not_mem_nil, or_false] at hb
      rcases hb with rfl | rfl | rfl | rfl <;> rw [toNat_octet (by omega)] <;> omega

end Characters

section Decoding

variable {low high : UInt8} {bits taken start : Nat} {rest : List UInt8} {n : Nat}

theorem tail_bounds (h : low.toNat ≤ n + 0x80) (h' : n + 0x80 ≤ high.toNat) :
    low ≤ UInt8.ofNat (n + 0x80) ∧ UInt8.ofNat (n + 0x80) ≤ high ∧
      (UInt8.ofNat (n + 0x80)).toNat - 0x80 = n := by
  have hlt := high.toNat_lt
  rw [UInt8.le_iff_toNat_le, UInt8.le_iff_toNat_le, toNat_octet (by omega)]
  omega

theorem decodeFrom_last (h : low.toNat ≤ n + 0x80) (h' : n + 0x80 ≤ high.toNat) :
    decodeFrom (.inside 1 low high bits taken) start (UInt8.ofNat (n + 0x80) :: rest) =
      (Char.ofNat (bits * 64 + n) :: ·) <$> decodeFrom .between (start + taken + 1) rest := by
  obtain ⟨hlow, hhigh, hn⟩ := tail_bounds h h'
  generalize UInt8.ofNat (n + 0x80) = b at hlow hhigh hn ⊢
  simp [decodeFrom, hlow, hhigh, hn]

theorem decodeFrom_more {owed : Nat} (h : low.toNat ≤ n + 0x80) (h' : n + 0x80 ≤ high.toNat) :
    decodeFrom (.inside (owed + 2) low high bits taken) start (UInt8.ofNat (n + 0x80) :: rest) =
      decodeFrom (.inside (owed + 1) 0x80 0xBF (bits * 64 + n) (taken + 1)) start rest := by
  obtain ⟨hlow, hhigh, hn⟩ := tail_bounds h h'
  generalize UInt8.ofNat (n + 0x80) = b at hlow hhigh hn ⊢
  simp [decodeFrom, hlow, hhigh, hn]

theorem ofLead_two {k : Nat} (h : 2 ≤ k) (h' : k < 32) :
    Progress.ofLead (UInt8.ofNat (k + 192)) = some (.inside 1 0x80 0xBF k 1) := by
  interval_cases k <;> rfl

theorem ofLead_three {k : Nat} (h : k < 16) :
    Progress.ofLead (UInt8.ofNat (k + 224)) =
      some (.inside 2 (if k = 0 then 0xA0 else 0x80) (if k = 13 then 0x9F else 0xBF) k 1) := by
  interval_cases k <;> rfl

theorem ofLead_four {k : Nat} (h : k < 5) :
    Progress.ofLead (UInt8.ofNat (k + 240)) =
      some (.inside 3 (if k = 0 then 0x90 else 0x80) (if k = 4 then 0x8F else 0xBF) k 1) := by
  interval_cases k <;> rfl

theorem decodeFrom_lead {k : Nat} {p : Progress} (hk : 0x80 ≤ k) (hk' : k < 256)
    (h : Progress.ofLead (UInt8.ofNat k) = some p) :
    decodeFrom .between start (UInt8.ofNat k :: rest) = decodeFrom p start rest := by
  have hnot : ¬ UInt8.ofNat k < 0x80 := by
    rw [UInt8.lt_iff_toNat_lt, toNat_octet hk']
    simpa using hk
  rw [decodeFrom, if_neg hnot, h]

/-- A character is read from the octets that it is written in. -/
theorem decodeFrom_char (c : Char) (start : Nat) (rest : List UInt8) :
    ∃ start', decodeFrom .between start (String.utf8EncodeChar c ++ rest) =
      (c :: ·) <$> decodeFrom .between start' rest := by
  have hvalid : c.val.toNat < 0xD800 ∨ 0xDFFF < c.val.toNat ∧ c.val.toNat < 0x110000 := c.valid
  have hchar : Char.ofNat c.val.toNat = c := Char.ofNat_toNat c
  simp only [String.utf8EncodeChar]
  generalize c.val.toNat = v at hvalid hchar
  split_ifs with hone htwo hthree
  · have hlt : UInt8.ofNat v < 0x80 := by
      rw [UInt8.lt_iff_toNat_lt, toNat_octet (by omega)]
      exact Nat.lt_succ_of_le hone
    refine ⟨start + 1, ?_⟩
    rw [List.singleton_append, decodeFrom, if_pos hlt, toNat_octet (by omega), hchar]
  · have hsum : v / 64 * 64 + v % 64 = v := Nat.div_add_mod' v 64
    have hlead : v / 64 % 32 = v / 64 := Nat.mod_eq_of_lt (by omega)
    refine ⟨start + 1 + 1, ?_⟩
    rw [hlead, List.cons_append, List.singleton_append,
      decodeFrom_lead (by omega) (by omega) (ofLead_two (by omega) (by omega)),
      decodeFrom_last (by simp) (by simp; omega), hsum, hchar]
  · have hsum : (v / 4096 * 64 + v / 64 % 64) * 64 + v % 64 = v := by omega
    have hlead : v / 4096 % 16 = v / 4096 := Nat.mod_eq_of_lt (by omega)
    refine ⟨start + 2 + 1, ?_⟩
    rw [hlead]
    simp only [List.cons_append, List.nil_append]
    rw [decodeFrom_lead (by omega) (by omega) (ofLead_three (by omega)),
      decodeFrom_more ?_ ?_, decodeFrom_last (by simp) (by simp; omega), hsum, hchar]
    · split_ifs
      · simp
        omega
      · simp
    · split_ifs
      · simp
        omega
      · simp
        omega
  · have hsum : ((v / 262144 * 64 + v / 4096 % 64) * 64 + v / 64 % 64) * 64 + v % 64 = v := by
      omega
    have hlead : v / 262144 % 8 = v / 262144 := Nat.mod_eq_of_lt (by omega)
    refine ⟨start + 3 + 1, ?_⟩
    rw [hlead]
    simp only [List.cons_append, List.nil_append]
    rw [decodeFrom_lead (by omega) (by omega) (ofLead_four (by omega)),
      decodeFrom_more ?_ ?_, decodeFrom_more (by simp) (by simp; omega),
      decodeFrom_last (by simp) (by simp; omega), hsum, hchar]
    · split_ifs
      · simp
        omega
      · simp
    · split_ifs
      · simp
        omega
      · simp
        omega

theorem decodeFrom_chars (cs : List Char) (start : Nat) :
    decodeFrom .between start (cs.flatMap String.utf8EncodeChar) = .ok cs := by
  induction cs generalizing start with
  | nil => rfl
  | cons c cs ih =>
    obtain ⟨start', hchar⟩ := decodeFrom_char c start (cs.flatMap String.utf8EncodeChar)
    rw [List.flatMap_cons, hchar, ih]
    rfl

theorem decode_encode (s : String) : decode (encode s) = .ok s.toList := by
  rw [decode, encode_eq, decodeFrom_chars]

end Decoding

section Soundness

/-- The octets that announce more octets, and what they announce. -/
theorem ofLead_eq_some {k : Nat} {p : Progress} (hk : k < 256)
    (h : Progress.ofLead (UInt8.ofNat k) = some p) :
    (194 ≤ k ∧ k < 224 ∧ p = .inside 1 0x80 0xBF (k - 192) 1) ∨
    (224 ≤ k ∧ k < 240 ∧ p = .inside 2 (if k - 224 = 0 then 0xA0 else 0x80)
      (if k - 224 = 13 then 0x9F else 0xBF) (k - 224) 1) ∨
    (240 ≤ k ∧ k < 245 ∧ p = .inside 3 (if k - 240 = 0 then 0x90 else 0x80)
      (if k - 240 = 4 then 0x8F else 0xBF) (k - 240) 1) := by
  by_cases hnone : k < 194 ∨ 245 ≤ k
  · have : Progress.ofLead (UInt8.ofNat k) = none := by
      rcases hnone with hlow | hhigh
      · interval_cases k <;> rfl
      · interval_cases k <;> rfl
    rw [this] at h
    cases h
  rw [not_or, Nat.not_lt, Nat.not_le] at hnone
  by_cases htwo : k < 224
  · rw [← Nat.sub_add_cancel (show 192 ≤ k by omega), ofLead_two (by omega) (by omega)] at h
    exact .inl ⟨hnone.1, htwo, (Option.some.inj h).symm⟩
  by_cases hthree : k < 240
  · rw [← Nat.sub_add_cancel (show 224 ≤ k by omega), ofLead_three (by omega)] at h
    exact .inr (.inl ⟨by omega, hthree, (Option.some.inj h).symm⟩)
  · rw [← Nat.sub_add_cancel (show 240 ≤ k by omega), ofLead_four (by omega)] at h
    exact .inr (.inr ⟨by omega, hnone.2, (Option.some.inj h).symm⟩)

/-- Octets that make up the rest of a character, and its number. -/
inductive Owed : (owed : Nat) → (low high : UInt8) → (bits : Nat) → List UInt8 → Nat → Prop
  | last {owed bits : Nat} {low high b : UInt8} : owed ≤ 1 → low ≤ b → b ≤ high →
      Owed owed low high bits [b] (bits * 64 + (b.toNat - 0x80))
  | more {owed bits n : Nat} {low high b : UInt8} {tail : List UInt8} : ¬ owed ≤ 1 → low ≤ b →
      b ≤ high → Owed (owed - 1) 0x80 0xBF (bits * 64 + (b.toNat - 0x80)) tail n →
      Owed owed low high bits (b :: tail) n

theorem Owed.one {low high : UInt8} {bits n : Nat} {tail : List UInt8}
    (h : Owed 1 low high bits tail n) : ∃ b : UInt8, tail = [b] ∧ low.toNat ≤ b.toNat ∧
      b.toNat ≤ high.toNat ∧ n = bits * 64 + (b.toNat - 0x80) := by
  cases h with
  | last _ hlow hhigh =>
    exact ⟨_, rfl, UInt8.le_iff_toNat_le.mp hlow, UInt8.le_iff_toNat_le.mp hhigh, rfl⟩
  | more hmore => exact absurd (Nat.le_refl 1) hmore

theorem Owed.succ {low high : UInt8} {owed bits n : Nat} {tail : List UInt8}
    (h : Owed (owed + 2) low high bits tail n) : ∃ (b : UInt8) (tail' : List UInt8),
      tail = b :: tail' ∧ low.toNat ≤ b.toNat ∧ b.toNat ≤ high.toNat ∧
        Owed (owed + 1) 0x80 0xBF (bits * 64 + (b.toNat - 0x80)) tail' n := by
  cases h with
  | last hlast => omega
  | more _ hlow hhigh h =>
    exact ⟨_, _, rfl, UInt8.le_iff_toNat_le.mp hlow, UInt8.le_iff_toNat_le.mp hhigh, h⟩

theorem octets_of_toNat {n : Nat} (h : n.isValidChar) {bytes : List UInt8}
    (hbytes : bytes.map UInt8.toNat =
      if n ≤ 0x7F then [n]
      else if n ≤ 0x7FF then [n / 64 + 0xC0, n % 64 + 0x80]
      else if n ≤ 0xFFFF then [n / 4096 + 0xE0, n / 64 % 64 + 0x80, n % 64 + 0x80]
      else [n / 262144 + 0xF0, n / 4096 % 64 + 0x80, n / 64 % 64 + 0x80, n % 64 + 0x80]) :
    String.utf8EncodeChar (Char.ofNat n) = bytes := by
  have hn : (Char.ofNat n).val.toNat = n := by
    rw [Char.ofNat, dif_pos h]
    rfl
  have hlt : n < 0x110000 := by
    rcases h with h | h <;> omega
  apply List.map_injective_iff.mpr fun a b => UInt8.toNat_inj.mp
  rw [hbytes]
  simp only [String.utf8EncodeChar, hn]
  split_ifs with hone htwo hthree
  · rw [List.map_singleton, toNat_octet (by omega)]
  · simp only [List.map_cons, List.map_nil]
    rw [toNat_octet (by omega), toNat_octet (by omega)]
    simp only [List.cons.injEq, and_true]
    omega
  · simp only [List.map_cons, List.map_nil]
    rw [toNat_octet (by omega), toNat_octet (by omega), toNat_octet (by omega)]
    simp only [List.cons.injEq, and_true]
    omega
  · simp only [List.map_cons, List.map_nil]
    rw [toNat_octet (by omega), toNat_octet (by omega), toNat_octet (by omega),
      toNat_octet (by omega)]
    simp only [List.cons.injEq, and_true]
    omega

section Characters

variable {b c d e : UInt8}

theorem octets_two (hb : 194 ≤ b.toNat) (hb' : b.toNat < 224) (hc : 0x80 ≤ c.toNat)
    (hc' : c.toNat ≤ 0xBF) :
    String.utf8EncodeChar (Char.ofNat ((b.toNat - 192) * 64 + (c.toNat - 0x80))) = [b, c] := by
  apply octets_of_toNat
  · left
    omega
  · rw [if_neg (by omega), if_pos (by omega)]
    simp only [List.map_cons, List.map_nil, List.cons.injEq, and_true]
    omega

theorem octets_three (hb : 224 ≤ b.toNat) (hb' : b.toNat < 240) (hc : 0x80 ≤ c.toNat)
    (hc' : c.toNat ≤ 0xBF) (hlow : b.toNat = 224 → 0xA0 ≤ c.toNat)
    (hhigh : b.toNat = 237 → c.toNat ≤ 0x9F) (hd : 0x80 ≤ d.toNat) (hd' : d.toNat ≤ 0xBF) :
    String.utf8EncodeChar (Char.ofNat
      (((b.toNat - 224) * 64 + (c.toNat - 0x80)) * 64 + (d.toNat - 0x80))) = [b, c, d] := by
  apply octets_of_toNat
  · rw [Nat.isValidChar]
    omega
  · rw [if_neg (by omega), if_neg (by omega), if_pos (by omega)]
    simp only [List.map_cons, List.map_nil, List.cons.injEq, and_true]
    omega

theorem octets_four (hb : 240 ≤ b.toNat) (hb' : b.toNat < 245) (hc : 0x80 ≤ c.toNat)
    (hc' : c.toNat ≤ 0xBF) (hlow : b.toNat = 240 → 0x90 ≤ c.toNat)
    (hhigh : b.toNat = 244 → c.toNat ≤ 0x8F) (hd : 0x80 ≤ d.toNat) (hd' : d.toNat ≤ 0xBF)
    (he : 0x80 ≤ e.toNat) (he' : e.toNat ≤ 0xBF) :
    String.utf8EncodeChar (Char.ofNat ((((b.toNat - 240) * 64 + (c.toNat - 0x80)) * 64 +
      (d.toNat - 0x80)) * 64 + (e.toNat - 0x80))) = [b, c, d, e] := by
  apply octets_of_toNat
  · rw [Nat.isValidChar]
    omega
  · rw [if_neg (by omega), if_neg (by omega), if_neg (by omega)]
    simp only [List.map_cons, List.map_nil, List.cons.injEq, and_true]
    omega

end Characters

/-- A first octet and what is owed to it make up a character. -/
theorem encode_lead {b low high : UInt8} {owed bits taken n : Nat} {tail : List UInt8}
    (h : Progress.ofLead b = some (.inside owed low high bits taken))
    (ht : Owed owed low high bits tail n) : String.utf8EncodeChar (Char.ofNat n) = b :: tail := by
  have h80 : (0x80 : UInt8).toNat = 0x80 := rfl
  have hBF : (0xBF : UInt8).toNat = 0xBF := rfl
  rw [← UInt8.ofNat_toNat (x := b)] at h
  rcases ofLead_eq_some b.toNat_lt h with ⟨hb, hb', hp⟩ | ⟨hb, hb', hp⟩ | ⟨hb, hb', hp⟩
  · obtain ⟨howed, hfrom, hto, hbits, -⟩ := Progress.inside.inj hp
    rw [howed, hfrom, hto, hbits] at ht
    obtain ⟨c, rfl, hc, hc', hn⟩ := ht.one
    rw [hn]
    exact octets_two hb hb' hc hc'
  · obtain ⟨howed, hfrom, hto, hbits, -⟩ := Progress.inside.inj hp
    rw [howed, hfrom, hto, hbits] at ht
    obtain ⟨c, tail, rfl, hc, hc', ht⟩ := ht.succ
    obtain ⟨d, rfl, hd, hd', hn⟩ := ht.one
    have hA0 : (0xA0 : UInt8).toNat = 0xA0 := rfl
    have h9F : (0x9F : UInt8).toNat = 0x9F := rfl
    rw [apply_ite UInt8.toNat, h80, hA0] at hc
    rw [apply_ite UInt8.toNat, hBF, h9F] at hc'
    have hbounds : 0x80 ≤ c.toNat ∧ c.toNat ≤ 0xBF ∧ (b.toNat = 224 → 0xA0 ≤ c.toNat) ∧
        (b.toNat = 237 → c.toNat ≤ 0x9F) := by
      split_ifs at hc hc' <;> omega
    rw [hn]
    exact octets_three hb hb' hbounds.1 hbounds.2.1 hbounds.2.2.1 hbounds.2.2.2 hd hd'
  · obtain ⟨howed, hfrom, hto, hbits, -⟩ := Progress.inside.inj hp
    rw [howed, hfrom, hto, hbits] at ht
    obtain ⟨c, tail, rfl, hc, hc', ht⟩ := ht.succ
    obtain ⟨d, tail, rfl, hd, hd', ht⟩ := ht.succ
    obtain ⟨e, rfl, he, he', hn⟩ := ht.one
    have h90 : (0x90 : UInt8).toNat = 0x90 := rfl
    have h8F : (0x8F : UInt8).toNat = 0x8F := rfl
    rw [apply_ite UInt8.toNat, h80, h90] at hc
    rw [apply_ite UInt8.toNat, hBF, h8F] at hc'
    have hbounds : 0x80 ≤ c.toNat ∧ c.toNat ≤ 0xBF ∧ (b.toNat = 240 → 0x90 ≤ c.toNat) ∧
        (b.toNat = 244 → c.toNat ≤ 0x8F) := by
      split_ifs at hc hc' <;> omega
    rw [hn]
    exact octets_four hb hb' hbounds.1 hbounds.2.1 hbounds.2.2.1 hbounds.2.2.2 hd hd' he he'

/-- What the octets spell that were read from some place on. -/
def Spells (p : Progress) (bytes : List UInt8) (cs : List Char) : Prop :=
  match p with
  | .between => bytes = cs.flatMap String.utf8EncodeChar
  | .inside owed low high bits _ => ∃ tail n cs', Owed owed low high bits tail n ∧
      bytes = tail ++ cs'.flatMap String.utf8EncodeChar ∧ cs = Char.ofNat n :: cs'

theorem exists_of_map_ok {ε α β : Type} {f : α → β} {x : Except ε α} {b : β}
    (h : f <$> x = .ok b) : ∃ a, x = .ok a ∧ f a = b := by
  cases x with
  | error e => cases h
  | ok a => exact ⟨a, rfl, Except.ok.inj h⟩

theorem spells_of_decodeFrom {p : Progress} {start : Nat} {bytes : List UInt8} {cs : List Char}
    (h : decodeFrom p start bytes = .ok cs) : Spells p bytes cs := by
  fun_induction decodeFrom p start bytes generalizing cs
  case case1 =>
    cases h
    rfl
  case case2 | case5 | case8 => cases h
  case case3 b rest hascii ih =>
    obtain ⟨cs', hrest, rfl⟩ := exists_of_map_ok h
    have hrest : rest = cs'.flatMap String.utf8EncodeChar := ih hrest
    have hlt : b.toNat < 0x80 := UInt8.lt_iff_toNat_lt.mp hascii
    have hfirst : String.utf8EncodeChar (Char.ofNat b.toNat) = [b] := by
      apply octets_of_toNat
      · left
        omega
      · rw [if_pos (by omega), List.map_singleton]
    rw [Spells, List.flatMap_cons, hfirst, ← hrest, List.singleton_append]
  case case4 b rest _ p hlead ih =>
    cases p with
    | between =>
      rw [← UInt8.ofNat_toNat (x := b)] at hlead
      rcases ofLead_eq_some b.toNat_lt hlead with ⟨-, -, hp⟩ | ⟨-, -, hp⟩ | ⟨-, -, hp⟩ <;> cases hp
    | inside owed low high bits taken =>
      obtain ⟨tail, n, cs', howed, rfl, rfl⟩ := ih h
      rw [Spells, List.flatMap_cons, encode_lead hlead howed, List.cons_append]
  case case6 b rest hrange _ hlast ih =>
    rw [Bool.and_eq_true, decide_eq_true_eq, decide_eq_true_eq] at hrange
    obtain ⟨cs', hrest, rfl⟩ := exists_of_map_ok h
    have hrest : rest = cs'.flatMap String.utf8EncodeChar := ih hrest
    exact ⟨[b], _, cs', .last hlast hrange.1 hrange.2, by rw [hrest, List.singleton_append], rfl⟩
  case case7 b rest hrange _ hmore ih =>
    rw [Bool.and_eq_true, decide_eq_true_eq, decide_eq_true_eq] at hrange
    obtain ⟨tail, n, cs', howed, rfl, rfl⟩ := ih h
    exact ⟨b :: tail, n, cs', .more hmore hrange.1 hrange.2 howed, rfl, rfl⟩

/-- The octets that are read are those of a text, and the text is what they spell. -/
theorem decode_eq_ok {bytes : List UInt8} {cs : List Char} :
    decode bytes = .ok cs ↔ bytes = encode (String.ofList cs) := by
  constructor
  · intro h
    rw [encode_ofList]
    exact spells_of_decodeFrom h
  · rintro rfl
    rw [decode_encode, String.toList_ofList]

end Soundness

end TableLoad.Text.Utf8
