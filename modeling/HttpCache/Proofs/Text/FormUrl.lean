import HttpCache.Proofs.Text.Ascii
import HttpCache.Text.FormUrl

/-!
# HttpCache.Proofs.Text.FormUrl

The canonical spelling of a list of parameters is read back as that list (`pairs_encodePairs`).

* `ofEncoded` — the octets of an encoded component: plain ones, `+` and `%`. Neither `&` nor `=`
  nor `?` is among them, so the marks between components can be found again.
* `decodeComponent_encodeComponent` — one component, octet by octet.
-/

namespace HttpCache
namespace FormUrl

open Ascii

/-! ## The octets of an encoded component -/

def ofEncoded (b : UInt8) : Bool := isPlain b || b == plus || b == percent

theorem isPlain_hexDigit : ∀ n, n < 16 → isPlain (hexDigit n) = true := by decide

theorem ne_of_isPlain {b c : UInt8} (hb : isPlain b = true) (hc : isPlain c = false) : b ≠ c := by
  rintro rfl
  rw [hb] at hc
  cases hc

theorem ofEncoded_encodeByte (b : UInt8) : ∀ x ∈ encodeByte b, ofEncoded x = true := by
  have hb := b.toNat_lt
  intro x hx
  unfold encodeByte at hx
  split at hx
  · rename_i hp
    rw [List.mem_singleton] at hx
    simp [hx, ofEncoded, hp]
  · split at hx
    · rw [List.mem_singleton] at hx
      simp [hx, ofEncoded]
    · have hhigh := isPlain_hexDigit (b.toNat / 16) (by omega)
      have hlow := isPlain_hexDigit (b.toNat % 16) (by omega)
      simp only [List.mem_cons, List.not_mem_nil, or_false] at hx
      rcases hx with rfl | rfl | rfl
      · simp [ofEncoded]
      · simp [ofEncoded, hhigh]
      · simp [ofEncoded, hlow]

theorem ofEncoded_encodeComponent (s : String) :
    ∀ x ∈ encodeComponent s, ofEncoded x = true := by
  intro x hx
  obtain ⟨b, -, hb⟩ := List.mem_flatMap.mp hx
  exact ofEncoded_encodeByte b x hb

theorem not_mem_encodeComponent (s : String) {c : UInt8} (hc : ofEncoded c = false) :
    c ∉ encodeComponent s := by
  intro hx
  have := ofEncoded_encodeComponent s c hx
  rw [hc] at this
  cases this

theorem ascii_of_ofEncoded (b : UInt8) : ofEncoded b = true → b < 128 :=
  Text.forall_octet (p := fun b => ofEncoded b = true → b < 128) (by decide +kernel) b

theorem mem_encodePair {p : String × String} {x : UInt8} (h : x ∈ encodePair p) :
    ofEncoded x = true ∨ x = equals := by
  simp only [encodePair, List.mem_append, List.mem_cons] at h
  rcases h with h | rfl | h
  · exact .inl (ofEncoded_encodeComponent _ x h)
  · exact .inr rfl
  · exact .inl (ofEncoded_encodeComponent _ x h)

theorem ampersand_not_mem_encodePair (p : String × String) : ampersand ∉ encodePair p := by
  intro h
  rcases mem_encodePair h with h | h <;> cases h

theorem encodePair_ne_nil (p : String × String) : encodePair p ≠ [] := by
  simp [encodePair]

/-! ## One component -/

theorem plusToSpace_append (xs ys : Bytes) :
    plusToSpace (xs ++ ys) = plusToSpace xs ++ plusToSpace ys := List.map_append

theorem percentDecode_cons {b : UInt8} (h : b ≠ percent) (rest : Bytes) :
    percentDecode (b :: rest) = b :: percentDecode rest := by
  rw [percentDecode.eq_def]
  simp [h]

theorem percentDecode_code (b : UInt8) (rest : Bytes) :
    percentDecode (percent :: hexDigit (b.toNat / 16) :: hexDigit (b.toNat % 16) :: rest) =
      b :: percentDecode rest := by
  have hb := b.toNat_lt
  have hn : b.toNat / 16 * 16 + b.toNat % 16 = b.toNat := by omega
  rw [percentDecode, if_pos rfl]
  simp only [hexValue?_hexDigit (b.toNat / 16) (by omega),
    hexValue?_hexDigit (b.toNat % 16) (by omega), hn, UInt8.ofNat_toNat]

theorem percentDecode_encodeByte (b : UInt8) (rest : Bytes) :
    percentDecode (plusToSpace (encodeByte b) ++ rest) = b :: percentDecode rest := by
  have hb := b.toNat_lt
  unfold encodeByte
  split
  · rename_i hp
    have hplus : plusToSpace [b] = [b] := by simp [plusToSpace, ne_of_isPlain hp (c := plus) rfl]
    rw [hplus, List.singleton_append, percentDecode_cons (ne_of_isPlain hp rfl)]
  · split
    · rename_i hs
      subst hs
      exact percentDecode_cons (by decide) rest
    · have hhigh := isPlain_hexDigit (b.toNat / 16) (by omega)
      have hlow := isPlain_hexDigit (b.toNat % 16) (by omega)
      have hplus : plusToSpace [percent, hexDigit (b.toNat / 16), hexDigit (b.toNat % 16)] =
          [percent, hexDigit (b.toNat / 16), hexDigit (b.toNat % 16)] := by
        have hp : percent ≠ plus := by decide
        simp [plusToSpace, hp, ne_of_isPlain hhigh (c := plus) rfl,
          ne_of_isPlain hlow (c := plus) rfl]
      rw [hplus]
      exact percentDecode_code b rest

theorem percentDecode_encode (bs : Bytes) :
    percentDecode (plusToSpace (bs.flatMap encodeByte)) = bs := by
  induction bs with
  | nil => rfl
  | cons b bs ih => rw [List.flatMap_cons, plusToSpace_append, percentDecode_encodeByte, ih]

theorem decodeComponent_encodeComponent (s : String) :
    decodeComponent (encodeComponent s) = s := by
  rw [decodeComponent, encodeComponent, percentDecode_encode, Utf8.lossy_utf8]

/-! ## A list of parameters -/

theorem splitPair_encodePair (p : String × String) :
    splitPair (encodePair p) = (encodeComponent p.1, encodeComponent p.2) := by
  have hne : ∀ b ∈ encodeComponent p.1, (b != equals) = true := by
    intro b hb
    rw [bne_iff_ne]
    rintro rfl
    exact not_mem_encodeComponent p.1 rfl hb
  simp [splitPair, encodePair, List.takeWhile_append_of_pos hne, List.dropWhile_append_of_pos hne]

theorem splitOn_encodePairsBytes (ps : List (String × String)) :
    ((encodePairsBytes ps).splitOn ampersand).filter (!·.isEmpty) = ps.map encodePair := by
  cases ps with
  | nil => rfl
  | cons p ps =>
    have hsep : ∀ l ∈ (p :: ps).map encodePair, ampersand ∉ l := by
      intro l hl
      obtain ⟨q, -, rfl⟩ := List.mem_map.mp hl
      exact ampersand_not_mem_encodePair q
    rw [encodePairsBytes, List.splitOn_intercalate ampersand hsep (by simp),
      List.filter_eq_self]
    intro l hl
    obtain ⟨q, -, rfl⟩ := List.mem_map.mp hl
    simp [encodePair_ne_nil]

theorem ascii_encodePairsBytes (ps : List (String × String)) :
    ∀ b ∈ encodePairsBytes ps, b < 128 := by
  induction ps with
  | nil => simp [encodePairsBytes]
  | cons p ps ih =>
    intro b hb
    have hpair : ∀ b ∈ encodePair p, b < 128 := by
      intro x hx
      rcases mem_encodePair hx with hx | rfl
      · exact ascii_of_ofEncoded x hx
      · decide
    cases ps with
    | nil => exact hpair b (by simpa [encodePairsBytes] using hb)
    | cons q qs =>
      simp only [encodePairsBytes, List.map_cons, List.intercalate_cons_cons,
        List.mem_append, List.mem_singleton] at hb ih
      rcases hb with (hb | rfl) | hb
      · exact hpair b hb
      · decide
      · exact ih b hb

theorem utf8_encodePairs (ps : List (String × String)) :
    Text.utf8 (encodePairs ps) = encodePairsBytes ps :=
  Text.utf8_lossy_ascii (ascii_encodePairsBytes ps)

theorem pairs_encodePairs (ps : List (String × String)) : pairs (encodePairs ps) = ps := by
  rw [pairs, utf8_encodePairs, pairsOfBytes, splitOn_encodePairsBytes, List.map_map]
  conv => rhs; rw [← List.map_id ps]
  refine List.map_congr_left fun p _ => ?_
  simp [splitPair_encodePair, decodeComponent_encodeComponent]

end FormUrl
end HttpCache
