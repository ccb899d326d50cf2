import HttpCache.Proofs.Except
import HttpCache.Proofs.Text.Ascii
import HttpCache.Text.Base64

/-!
# HttpCache.Proofs.Text.Base64

Base64 loses nothing and has one text for the octets of every length, whatever is left over after
the groups of three.

* `decode_encode`, `encode_of_decode` — what is written is read back, and what is read is what
  would be written.
* `Canonical`, `canonical_iff` — the form of the texts that are written: symbols and padding, as
  many of both as fill groups of four, and no unused bit set.
* `encode_ascii` — what is written is ASCII.
* `Describes`, `describes_of_decode` — what an error says of a text that is refused.

One lemma for each shape of a group: three octets, the last two, the last one.
-/

namespace HttpCache
namespace Base64

theorem symbol_ascii : ∀ n, n < 64 → symbol n < 128 := by decide

theorem encode_ascii (bs : Bytes) : ∀ b ∈ encode bs, b < 128 := by
  have hpad : pad < 128 := by decide
  fun_induction encode bs with
  | case1 => simp
  | case2 a n =>
    have ha := a.toNat_lt
    have h₁ := symbol_ascii (n / 64) (by omega)
    have h₂ := symbol_ascii (n % 64) (by omega)
    simp [h₁, h₂, hpad]
  | case3 a b n =>
    have ha := a.toNat_lt
    have hb := b.toNat_lt
    have h₁ := symbol_ascii (n / 4096) (by omega)
    have h₂ := symbol_ascii (n / 64 % 64) (by omega)
    have h₃ := symbol_ascii (n % 64) (by omega)
    simp [h₁, h₂, h₃, hpad]
  | case4 a b c rest n ih =>
    have ha := a.toNat_lt
    have hb := b.toNat_lt
    have hc := c.toNat_lt
    have h₁ := symbol_ascii (n / 262144) (by omega)
    have h₂ := symbol_ascii (n / 4096 % 64) (by omega)
    have h₃ := symbol_ascii (n / 64 % 64) (by omega)
    have h₄ := symbol_ascii (n % 64) (by omega)
    simpa [h₁, h₂, h₃, h₄] using ih

theorem readSymbol_symbol (offset : Nat) {n : Nat} (h : n < 64) :
    readSymbol offset (symbol n) = .ok n := by
  rw [readSymbol, value?_symbol n h]

section Group

variable {x y z w : Nat} (hx : x < 64) (hy : y < 64) (hz : z < 64) (hw : w < 64) (offset : Nat)

include hx hy in
theorem decodeLast_lastOne : decodeLast offset (symbol x) (symbol y) pad pad =
    endedBy (offset + 1) (symbol y) (lastOne? x y) := by
  simp only [decodeLast, readSymbol_symbol _ hx, readSymbol_symbol _ hy, bind, Except.bind, if_true]

include hx hy hz in
theorem decodeLast_lastTwo : decodeLast offset (symbol x) (symbol y) (symbol z) pad =
    endedBy (offset + 2) (symbol z) (lastTwo? x y z) := by
  simp only [decodeLast, readSymbol_symbol _ hx, readSymbol_symbol _ hy, readSymbol_symbol _ hz,
    symbol_ne_pad z hz, bind, Except.bind, if_true, if_false]

include hx hy hz hw in
theorem decodeLast_group : decodeLast offset (symbol x) (symbol y) (symbol z) (symbol w) =
    .ok (group x y z w) := by
  simp only [decodeLast, readSymbol_symbol _ hx, readSymbol_symbol _ hy, readSymbol_symbol _ hz,
    readSymbol_symbol _ hw, symbol_ne_pad z hz, symbol_ne_pad w hw, bind, Except.bind, if_false]
  rfl

include hx hy hz hw in
theorem decodeGroup_symbols : decodeGroup offset (symbol x) (symbol y) (symbol z) (symbol w) =
    .ok (group x y z w) := by
  simp only [decodeGroup, readSymbol_symbol _ hx, readSymbol_symbol _ hy, readSymbol_symbol _ hz,
    readSymbol_symbol _ hw, bind, Except.bind]
  rfl

end Group

/-- Symbols and padding fill groups of four. -/
theorem length_encode (bs : Bytes) : (encode bs).length % 4 = 0 := by
  fun_induction encode bs with
  | case1 => rfl
  | case2 => simp
  | case3 => simp
  | case4 a b c rest n ih =>
    simp only [List.length_cons]
    omega

theorem stray?_of_length {s : Bytes} (h : s.length % 4 = 0) : stray? s = none := by
  simp only [stray?, h]
  split <;> rfl

theorem decodeFrom_group {offset : Nat} {a b c d : UInt8} {rest octets more : Bytes}
    (hlast : decodeLast offset a b c d = .ok octets)
    (hgroup : decodeGroup offset a b c d = .ok octets)
    (hrest : decodeFrom (offset + 4) rest = .ok more) :
    decodeFrom offset (a :: b :: c :: d :: rest) = .ok (octets ++ more) := by
  rw [decodeFrom]
  split
  · rename_i hnil
    rw [List.isEmpty_iff.mp hnil] at hrest
    cases hrest
    rw [hlast, List.append_nil]
  · rw [hgroup, hrest]
    rfl

theorem decodeFrom_encode (offset : Nat) (bs : Bytes) : decodeFrom offset (encode bs) = .ok bs := by
  fun_induction encode bs generalizing offset with
  | case1 => rfl
  | case2 a n =>
    have ha := a.toNat_lt
    have hn : n / 64 * 64 + n % 64 = n := by omega
    rw [decodeFrom, List.isEmpty_nil, if_pos rfl, decodeLast_lastOne (by omega) (by omega), lastOne?,
      hn]
    simp [n, endedBy]
  | case3 a b n =>
    have ha := a.toNat_lt
    have hb := b.toNat_lt
    have hn : (n / 4096 * 64 + n / 64 % 64) * 64 + n % 64 = n := by omega
    have h₁ : n / 1024 = a.toNat := by omega
    have h₂ : n / 4 % 256 = b.toNat := by omega
    have h₃ : n % 4 = 0 := by omega
    rw [decodeFrom, List.isEmpty_nil, if_pos rfl,
      decodeLast_lastTwo (by omega) (by omega) (by omega), lastTwo?, hn]
    simp [h₁, h₂, h₃, endedBy]
  | case4 a b c rest n ih =>
    have ha := a.toNat_lt
    have hb := b.toNat_lt
    have hc := c.toNat_lt
    have hn : ((n / 262144 * 64 + n / 4096 % 64) * 64 + n / 64 % 64) * 64 + n % 64 = n := by
      omega
    have h₁ : n / 65536 = a.toNat := by omega
    have h₂ : n / 256 % 256 = b.toNat := by omega
    have h₃ : n % 256 = c.toNat := by omega
    have hgroup : group (n / 262144) (n / 4096 % 64) (n / 64 % 64) (n % 64) = [a, b, c] := by
      simp [group, hn, h₁, h₂, h₃]
    rw [decodeFrom_group (decodeLast_group (by omega) (by omega) (by omega) (by omega) offset)
      (decodeGroup_symbols (by omega) (by omega) (by omega) (by omega) offset) (ih (offset + 4)),
      hgroup]
    rfl

theorem decode_encode (bs : Bytes) : decode (encode bs) = .ok bs := by
  rw [decode, stray?_of_length (length_encode bs)]
  exact decodeFrom_encode 0 bs

/-! ## One text for the octets -/

theorem symbol_of_value? {b : UInt8} {n : Nat} (h : value? b = some n) :
    n < 64 ∧ symbol n = b :=
  Text.forall_octet (p := fun b => ∀ n ∈ value? b, n < 64 ∧ symbol n = b) (by decide +kernel) b n h

theorem toNat_octet {n : Nat} (h : n < 256) : (UInt8.ofNat n).toNat = n :=
  UInt8.toNat_ofNat_of_lt' h

section Written

variable {x y z w : Nat} (hx : x < 64) (hy : y < 64) (hz : z < 64) (hw : w < 64)

include hx hy in
theorem encode_lastOne {bs : Bytes} (h : lastOne? x y = some bs) :
    encode bs = [symbol x, symbol y, pad, pad] := by
  simp only [lastOne?] at h
  generalize hn : x * 64 + y = n at h
  split at h
  · cases h
    have hone : (UInt8.ofNat (n / 16)).toNat = n / 16 := toNat_octet (by omega)
    have h₁ : n / 16 * 16 / 64 = x := by omega
    have h₂ : n / 16 * 16 % 64 = y := by omega
    simp only [encode, hone, h₁, h₂]
  · cases h

include hx hy hz in
theorem encode_lastTwo {bs : Bytes} (h : lastTwo? x y z = some bs) :
    encode bs = [symbol x, symbol y, symbol z, pad] := by
  simp only [lastTwo?] at h
  generalize hn : (x * 64 + y) * 64 + z = n at h
  split at h
  · cases h
    have hfirst : (UInt8.ofNat (n / 1024)).toNat = n / 1024 := toNat_octet (by omega)
    have hsecond : (UInt8.ofNat (n / 4 % 256)).toNat = n / 4 % 256 := toNat_octet (by omega)
    have hsum : (n / 1024 * 256 + n / 4 % 256) * 4 = n := by omega
    have h₁ : n / 4096 = x := by omega
    have h₂ : n / 64 % 64 = y := by omega
    have h₃ : n % 64 = z := by omega
    simp only [encode, hfirst, hsecond, hsum, h₁, h₂, h₃]
  · cases h

include hx hy hz hw in
theorem encode_group (bs : Bytes) :
    encode (group x y z w ++ bs) =
      symbol x :: symbol y :: symbol z :: symbol w :: encode bs := by
  simp only [group, List.cons_append, List.nil_append]
  generalize hn : ((x * 64 + y) * 64 + z) * 64 + w = n
  have hfirst : (UInt8.ofNat (n / 65536)).toNat = n / 65536 := toNat_octet (by omega)
  have hsecond : (UInt8.ofNat (n / 256 % 256)).toNat = n / 256 % 256 := toNat_octet (by omega)
  have hthird : (UInt8.ofNat (n % 256)).toNat = n % 256 := toNat_octet (by omega)
  have hsum : (n / 65536 * 256 + n / 256 % 256) * 256 + n % 256 = n := by omega
  have h₁ : n / 262144 = x := by omega
  have h₂ : n / 4096 % 64 = y := by omega
  have h₃ : n / 64 % 64 = z := by omega
  have h₄ : n % 64 = w := by omega
  simp only [encode, hfirst, hsecond, hthird, hsum, h₁, h₂, h₃, h₄]

end Written

theorem readSymbol_eq_ok {offset n : Nat} {b : UInt8} (h : readSymbol offset b = .ok n) :
    n < 64 ∧ symbol n = b := by
  unfold readSymbol at h
  split at h
  · cases h
  · rename_i hvalue
    cases h
    exact symbol_of_value? hvalue

theorem endedBy_eq_ok {offset : Nat} {b : UInt8} {octets? : Option Bytes} {octets : Bytes}
    (h : endedBy offset b octets? = .ok octets) : octets? = some octets := by
  cases octets? with
  | none => cases h
  | some found => cases h; rfl

theorem encode_decodeGroup {offset : Nat} {a b c d : UInt8} {octets : Bytes}
    (h : decodeGroup offset a b c d = .ok octets) (more : Bytes) :
    encode (octets ++ more) = a :: b :: c :: d :: encode more := by
  simp only [decodeGroup, bind_eq_ok_iff] at h
  obtain ⟨x, ha, y, hb, z, hc, w, hd, hoctets⟩ := h
  obtain ⟨hx, rfl⟩ := readSymbol_eq_ok ha
  obtain ⟨hy, rfl⟩ := readSymbol_eq_ok hb
  obtain ⟨hz, rfl⟩ := readSymbol_eq_ok hc
  obtain ⟨hw, rfl⟩ := readSymbol_eq_ok hd
  cases hoctets
  exact encode_group hx hy hz hw more

theorem encode_decodeLast {offset : Nat} {a b c d : UInt8} {octets : Bytes}
    (h : decodeLast offset a b c d = .ok octets) : encode octets = [a, b, c, d] := by
  simp only [decodeLast, bind_eq_ok_iff] at h
  obtain ⟨x, ha, y, hb, h⟩ := h
  obtain ⟨hx, rfl⟩ := readSymbol_eq_ok ha
  obtain ⟨hy, rfl⟩ := readSymbol_eq_ok hb
  split at h
  · rename_i hc
    split at h
    · rename_i hd
      rw [hc, hd]
      exact encode_lastOne hx hy (endedBy_eq_ok h)
    · cases h
  · obtain ⟨z, hc, h⟩ := bind_eq_ok_iff.mp h
    obtain ⟨hz, rfl⟩ := readSymbol_eq_ok hc
    split at h
    · rename_i hd
      rw [hd]
      exact encode_lastTwo hx hy hz (endedBy_eq_ok h)
    · obtain ⟨w, hd, hoctets⟩ := bind_eq_ok_iff.mp h
      obtain ⟨hw, rfl⟩ := readSymbol_eq_ok hd
      cases hoctets
      have hall := encode_group hx hy hz hw []
      rwa [List.append_nil] at hall

/-- Fewer than four octets are a text only if there is none. -/
theorem decodeShort_eq_ok {offset : Nat} {s octets : Bytes}
    (h : decodeShort offset s = .ok octets) : s = [] ∧ octets = [] := by
  unfold decodeShort at h
  split at h
  · cases h
    exact ⟨rfl, rfl⟩
  · obtain ⟨x, -, h⟩ := bind_eq_ok_iff.mp h
    cases h
  · simp only [bind_eq_ok_iff] at h
    obtain ⟨x, -, y, -, h⟩ := h
    split at h
    · cases h
    · split at h
      · cases h
      · obtain ⟨z, -, h⟩ := bind_eq_ok_iff.mp h
        cases h

theorem encode_decodeFrom {offset : Nat} {s bs : Bytes} (h : decodeFrom offset s = .ok bs) :
    encode bs = s := by
  fun_induction decodeFrom offset s generalizing bs with
  | case1 offset a b c d rest hrest =>
    rw [List.isEmpty_iff.mp hrest]
    exact encode_decodeLast h
  | case2 offset a b c d rest hrest ih =>
    obtain ⟨octets, hgroup, h⟩ := bind_eq_ok_iff.mp h
    obtain ⟨more, hmore, h⟩ := bind_eq_ok_iff.mp h
    cases h
    rw [encode_decodeGroup hgroup, ih hmore]
  | case3 offset s =>
    obtain ⟨rfl, rfl⟩ := decodeShort_eq_ok h
    rfl

/-- What is read is what would be written. -/
theorem encode_of_decode {s bs : Bytes} (h : decode s = .ok bs) : encode bs = s := by
  unfold decode at h
  split at h
  · cases h
  · exact encode_decodeFrom h

/-! ## The form of these texts -/

/-- Symbols and padding. -/
def spelled (values : List Nat) (pads : Nat) : Bytes :=
  values.map symbol ++ List.replicate pads pad

/-- How symbols are padded: together they fill groups of four, and of the bits of the last symbol
two are left out for each padding, which are not set. -/
structure Padded (values : List Nat) (pads : Nat) : Prop where
  symbols : ∀ n ∈ values, n < 64
  pads_le : pads ≤ 2
  groups : (values.length + pads) % 4 = 0
  unused : ∀ n ∈ values.getLast?, n % Nat.pow 4 pads = 0

def Canonical (s : Bytes) : Prop := ∃ values pads, Padded values pads ∧ s = spelled values pads

variable {x y z w pads : Nat} {values : List Nat}

/-- A group of four symbols in front changes nothing about the padding. -/
theorem padded_group :
    Padded (x :: y :: z :: w :: values) pads ↔
      (x < 64 ∧ y < 64 ∧ z < 64 ∧ w < 64) ∧ Padded values pads := by
  have hsymbols : (∀ n ∈ x :: y :: z :: w :: values, n < 64) ↔
      (x < 64 ∧ y < 64 ∧ z < 64 ∧ w < 64) ∧ ∀ n ∈ values, n < 64 := by
    simp only [List.forall_mem_cons, and_assoc]
  have hgroups : ((x :: y :: z :: w :: values).length + pads) % 4 = (values.length + pads) % 4 := by
    simp only [List.length_cons]
    omega
  have hunused : (values.length + pads) % 4 = 0 → pads ≤ 2 →
      ((∀ n ∈ (x :: y :: z :: w :: values).getLast?, n % Nat.pow 4 pads = 0) ↔
        ∀ n ∈ values.getLast?, n % Nat.pow 4 pads = 0) := by
    intro hlength hpads
    cases values with
    | nil =>
      -- four symbols are a group without padding, so that all bits are used
      obtain rfl : pads = 0 := by simp only [List.length_nil] at hlength; omega
      simp [Nat.mod_one]
    | cons v values => simp only [List.getLast?_cons_cons]
  constructor
  · rintro ⟨hs, hpads, hlength, hlast⟩
    rw [hgroups] at hlength
    exact ⟨(hsymbols.mp hs).1, (hsymbols.mp hs).2, hpads, hlength, (hunused hlength hpads).mp hlast⟩
  · rintro ⟨hfirst, hs, hpads, hlength, hlast⟩
    exact ⟨hsymbols.mpr ⟨hfirst, hs⟩, hpads, hgroups.trans hlength,
      (hunused hlength hpads).mpr hlast⟩

theorem canonical_encode (bs : Bytes) : Canonical (encode bs) := by
  fun_induction encode bs with
  | case1 => exact ⟨[], 0, ⟨nofun, by omega, by simp, nofun⟩, rfl⟩
  | case2 a n =>
    have ha := a.toNat_lt
    refine ⟨[n / 64, n % 64], 2, ⟨?_, by omega, by simp, ?_⟩, rfl⟩
    · simp; omega
    · simp; omega
  | case3 a b n =>
    have ha := a.toNat_lt
    have hb := b.toNat_lt
    refine ⟨[n / 4096, n / 64 % 64, n % 64], 1, ⟨?_, by omega, by simp, ?_⟩, rfl⟩
    · simp; omega
    · simp; omega
  | case4 a b c rest n ih =>
    have ha := a.toNat_lt
    have hb := b.toNat_lt
    have hc := c.toNat_lt
    obtain ⟨values, pads, hpadded, hs⟩ := ih
    refine ⟨n / 262144 :: n / 4096 % 64 :: n / 64 % 64 :: n % 64 :: values, pads, ?_, ?_⟩
    · exact padded_group.mpr ⟨by omega, hpadded⟩
    · rw [hs]
      rfl

/-- The number of symbols fixes the padding, and no last group has one symbol. -/
theorem Padded.pads_eq (h : Padded values pads) :
    pads = (4 - values.length % 4) % 4 ∧ values.length % 4 ≠ 1 := by
  have hgroups := h.groups
  have hpads := h.pads_le
  omega

theorem exists_encode_of_padded : ∀ {values : List Nat} {pads : Nat}, Padded values pads →
    ∃ bs, encode bs = spelled values pads
  | [], pads, h => by
    obtain rfl : pads = 0 := h.pads_eq.1
    exact ⟨[], rfl⟩
  | [x], pads, h => absurd rfl h.pads_eq.2
  | [x, y], pads, h => by
    obtain rfl : pads = 2 := h.pads_eq.1
    have hlast : y % 16 = 0 := h.unused y rfl
    exact ⟨_, encode_lastOne (h.symbols x (by simp)) (h.symbols y (by simp)) (if_pos (by omega))⟩
  | [x, y, z], pads, h => by
    obtain rfl : pads = 1 := h.pads_eq.1
    have hlast : z % 4 = 0 := h.unused z rfl
    exact ⟨_, encode_lastTwo (h.symbols x (by simp)) (h.symbols y (by simp))
      (h.symbols z (by simp)) (if_pos (by omega))⟩
  | x :: y :: z :: w :: values, pads, h => by
    obtain ⟨⟨hx, hy, hz, hw⟩, hpadded⟩ := padded_group.mp h
    obtain ⟨bs, hbs⟩ := exists_encode_of_padded hpadded
    exact ⟨group x y z w ++ bs, by rw [encode_group hx hy hz hw, hbs]; rfl⟩

/-- The texts that are written are those of this form. -/
theorem canonical_iff {s : Bytes} : Canonical s ↔ ∃ bs, encode bs = s := by
  constructor
  · rintro ⟨values, pads, hpadded, rfl⟩
    exact exists_encode_of_padded hpadded
  · rintro ⟨bs, rfl⟩
    exact canonical_encode bs

/-! ## What an error says -/

/-- What an error says of a text: which octet of it is no symbol, that its symbols and padding do
not fill groups of four, or which symbol has unused bits set. -/
inductive Describes (s : Bytes) : Error → Prop where
  | invalidSymbol {offset : Nat} {b : UInt8} (hb : s[offset]? = some b) (hvalue : value? b = none) :
      Describes s (.invalidSymbol offset b)
  | invalidLength (hlength : s.length % 4 = 1) : Describes s (.invalidLength s.length)
  | invalidLastSymbol {offset n : Nat} {b : UInt8} (hb : s[offset]? = some b)
      (hvalue : value? b = some n) : Describes s (.invalidLastSymbol offset b)
  | invalidPadding (hlength : s.length % 4 = 2 ∨ s.length % 4 = 3) : Describes s .invalidPadding

section Describes

variable {s t : Bytes} {offset : Nat} {a b c d : UInt8} {e : Error}

theorem value?_pad : value? pad = none := rfl

theorem describes_of_readSymbol (hb : s[offset]? = some b) (h : readSymbol offset b = .error e) :
    Describes s e := by
  unfold readSymbol at h
  split at h
  · rename_i hvalue
    cases h
    exact .invalidSymbol hb hvalue
  · cases h

theorem describes_of_endedBy {n : Nat} {octets? : Option Bytes} (hb : s[offset]? = some b)
    (hn : readSymbol offset b = .ok n) (h : endedBy offset b octets? = .error e) :
    Describes s e := by
  obtain ⟨hlt, rfl⟩ := readSymbol_eq_ok hn
  cases octets? with
  | none => cases h; exact .invalidLastSymbol hb (value?_symbol n hlt)
  | some octets => cases h

section Groups

variable (ha : s[offset]? = some a) (hb : s[offset + 1]? = some b) (hc : s[offset + 2]? = some c)
variable (hd : s[offset + 3]? = some d)

include ha hb hc hd in
theorem describes_of_decodeGroup (h : decodeGroup offset a b c d = .error e) : Describes s e := by
  simp only [decodeGroup, bind_eq_error_iff] at h
  rcases h with h | ⟨x, -, h | ⟨y, -, h | ⟨z, -, h | ⟨w, -, h⟩⟩⟩⟩
  · exact describes_of_readSymbol ha h
  · exact describes_of_readSymbol hb h
  · exact describes_of_readSymbol hc h
  · exact describes_of_readSymbol hd h
  · cases h

include ha hb hc hd in
theorem describes_of_decodeLast (h : decodeLast offset a b c d = .error e) : Describes s e := by
  simp only [decodeLast, bind_eq_error_iff] at h
  rcases h with h | ⟨x, -, h | ⟨y, hy, h⟩⟩
  · exact describes_of_readSymbol ha h
  · exact describes_of_readSymbol hb h
  · split at h
    · rename_i hpad
      split at h
      · exact describes_of_endedBy hb hy h
      · cases h
        exact .invalidSymbol hc (by rw [hpad, value?_pad])
    · rcases bind_eq_error_iff.mp h with h | ⟨z, hz, h⟩
      · exact describes_of_readSymbol hc h
      · split at h
        · exact describes_of_endedBy hc hz h
        · rcases bind_eq_error_iff.mp h with h | ⟨w, -, h⟩
          · exact describes_of_readSymbol hd h
          · cases h

end Groups

/-- The octets from an offset on are those of the text there. -/
theorem getElem?_of_drop (ht : s.drop offset = t) (i : Nat) : s[offset + i]? = t[i]? := by
  rw [← ht, List.getElem?_drop]

theorem describes_of_decodeShort (ht : s.drop offset = t) (hoffset : offset % 4 = 0)
    (hshort : t.length < 4) (h : decodeShort offset t = .error e) : Describes s e := by
  have hoctet := getElem?_of_drop ht
  have hlength := congrArg List.length ht
  rw [List.length_drop] at hlength
  unfold decodeShort at h
  split at h
  · cases h
  · rename_i a
    rcases bind_eq_error_iff.mp h with h | ⟨x, -, h⟩
    · exact describes_of_readSymbol (hoctet 0) h
    · cases h
      have hs : offset + 1 = s.length := by
        rw [List.length_singleton] at hlength
        omega
      rw [hs]
      exact .invalidLength (by omega)
  · rename_i a b rest
    simp only [bind_eq_error_iff] at h
    rcases h with h | ⟨x, -, h | ⟨y, -, h⟩⟩
    · exact describes_of_readSymbol (hoctet 0) h
    · exact describes_of_readSymbol (hoctet 1) h
    · have hpadding : Describes s .invalidPadding := by
        simp only [List.length_cons] at hlength hshort
        exact .invalidPadding (by omega)
      split at h
      · cases h
        exact hpadding
      · split at h
        · cases h
          exact hpadding
        · rcases bind_eq_error_iff.mp h with h | ⟨z, -, h⟩
          · exact describes_of_readSymbol (hoctet 2) h
          · cases h
            exact hpadding

theorem describes_of_decodeFrom (ht : s.drop offset = t) (hoffset : offset % 4 = 0)
    (h : decodeFrom offset t = .error e) : Describes s e := by
  fun_induction decodeFrom offset t with
  | case1 offset a b c d rest hrest =>
    have hoctet := getElem?_of_drop ht
    exact describes_of_decodeLast (hoctet 0) (hoctet 1) (hoctet 2) (hoctet 3) h
  | case2 offset a b c d rest hrest ih =>
    have hoctet := getElem?_of_drop ht
    have hdrop : s.drop (offset + 4) = rest := by
      rw [← List.drop_drop, ht]
      rfl
    rcases bind_eq_error_iff.mp h with h | ⟨octets, -, h⟩
    · exact describes_of_decodeGroup (hoctet 0) (hoctet 1) (hoctet 2) (hoctet 3) h
    · rcases bind_eq_error_iff.mp h with h | ⟨more, -, h⟩
      · exact ih hdrop (by omega) h
      · cases h
  | case3 offset t hgroup =>
    have hshort : t.length < 4 := by
      match t, hgroup with
      | [], _ | [_], _ | [_, _], _ | [_, _, _], _ => simp
      | a :: b :: c :: d :: rest, hgroup => exact absurd rfl (hgroup a b c d rest)
    exact describes_of_decodeShort ht hoffset hshort h

/-- A refused text is as its error says. -/
theorem describes_of_decode (h : decode s = .error e) : Describes s e := by
  unfold decode at h
  split at h
  · rename_i e' hstray
    cases h
    unfold stray? at hstray
    split at hstray
    · cases hstray
    · rename_i b hlast
      split at hstray
      · rename_i hb
        cases hstray
        simp only [Bool.and_eq_true, Option.isNone_iff_eq_none] at hb
        exact .invalidSymbol (by rw [← hlast, List.getLast?_eq_getElem?]) hb.2
      · cases hstray
  · exact describes_of_decodeFrom rfl rfl h

end Describes

end Base64
end HttpCache
