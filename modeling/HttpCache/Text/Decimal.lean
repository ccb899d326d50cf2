import HttpCache.Text.Bytes

/-!
# HttpCache.Text.Decimal

Whole numbers in decimal.

* `digits n` — the digits of `n`, most significant first, without leading zeros.
* `value? cs` — the number that a non-empty run of digits stands for.
* `natural? limit s` — reads an optional `+` and digits, up to `limit`.
* `integer? s` — reads an optional sign and digits within 64 signed bits.

`value?_digits` says that reading undoes writing, `natural?_eq_some_iff` which texts are read.
-/

namespace HttpCache
namespace Decimal

def digit (n : Nat) : Char := Char.ofNat (48 + n)

def digits (n : Nat) : List Char :=
  if n < 10 then [digit n] else digits (n / 10) ++ [digit (n % 10)]

def text (n : Nat) : String := String.ofList (digits n)

/-- The decimal text of an integer: a minus in front of a negative one. -/
def integerText (i : Int) : String := if i < 0 then "-" ++ text i.natAbs else text i.natAbs

def valueFrom (acc : Nat) : List Char → Option Nat
  | [] => some acc
  | c :: rest =>
    if c.isDigit then valueFrom (acc * 10 + (c.toNat - 48)) rest else none

def value? (cs : List Char) : Option Nat := if cs.isEmpty then none else valueFrom 0 cs

/-- Reads an optional plus sign and digits; a value above `limit` is refused. -/
def natural? (limit : Nat) (s : String) : Option Nat :=
  let body := match s.toList with
    | '+' :: rest => rest
    | cs => cs
  (value? body).filter (· ≤ limit)

/-- Reads an optional sign and digits; the value has to fit 64 signed bits. -/
def integer? (s : String) : Option Int :=
  match s.toList with
  | '-' :: rest => ((value? rest).filter (· ≤ 0x8000000000000000)).map fun n => -(n : Int)
  | '+' :: rest => ((value? rest).filter (· < 0x8000000000000000)).map Int.ofNat
  | cs => ((value? cs).filter (· < 0x8000000000000000)).map Int.ofNat

theorem digit_isDigit : ∀ n, n < 10 → (digit n).isDigit = true := by decide

theorem digit_toNat : ∀ n, n < 10 → (digit n).toNat - 48 = n := by decide

theorem valueFrom_append (acc : Nat) (xs ys : List Char) :
    valueFrom acc (xs ++ ys) = (valueFrom acc xs).bind fun v => valueFrom v ys := by
  induction xs generalizing acc with
  | nil => rfl
  | cons c rest ih =>
    simp only [List.cons_append, valueFrom]
    split
    · exact ih _
    · rfl

theorem digits_ne_nil (n : Nat) : digits n ≠ [] := by
  rw [digits]
  split <;> simp

theorem isDigit_of_mem_digits {n : Nat} {c : Char} (h : c ∈ digits n) : c.isDigit = true := by
  induction n using Nat.strongRecOn with
  | _ n ih =>
    rw [digits] at h
    split at h
    · rename_i hn
      rw [List.mem_singleton] at h
      exact h ▸ digit_isDigit n hn
    · rw [List.mem_append, List.mem_singleton] at h
      rcases h with h | rfl
      · exact ih (n / 10) (by omega) h
      · exact digit_isDigit _ (by omega)

theorem valueFrom_digits (n : Nat) : valueFrom 0 (digits n) = some n := by
  induction n using Nat.strongRecOn with
  | _ n ih =>
    rw [digits]
    split
    · rename_i h
      simp [valueFrom, digit_isDigit n h, digit_toNat n h]
    · rename_i h
      rw [valueFrom_append, ih (n / 10) (by omega)]
      have hm : n % 10 < 10 := by omega
      simp only [Option.bind_some, valueFrom, digit_isDigit _ hm, digit_toNat _ hm, if_pos]
      congr 1
      omega

theorem value?_digits (n : Nat) : value? (digits n) = some n := by
  have h : (digits n).isEmpty = false := by simp [digits_ne_nil]
  simp [value?, h, valueFrom_digits]

/-- One digit or more, and the number they stand for. -/
structure Numeral (cs : List Char) (n : Nat) : Prop where
  nonempty : cs ≠ []
  digits : ∀ c ∈ cs, c.isDigit = true
  value : cs.foldl (fun acc c => acc * 10 + (c.toNat - 48)) 0 = n

theorem valueFrom_eq_some_iff {acc n : Nat} {cs : List Char} :
    valueFrom acc cs = some n ↔
      (∀ c ∈ cs, c.isDigit = true) ∧
        cs.foldl (fun acc c => acc * 10 + (c.toNat - 48)) acc = n := by
  induction cs generalizing acc with
  | nil => simp [valueFrom]
  | cons c cs ih =>
    rw [valueFrom, List.foldl_cons]
    split
    · rename_i hc
      simp [ih, hc]
    · rename_i hc
      simp [hc]

theorem value?_eq_some_iff {cs : List Char} {n : Nat} : value? cs = some n ↔ Numeral cs n := by
  constructor
  · intro h
    unfold value? at h
    split at h
    · cases h
    · rename_i hne
      obtain ⟨hdigits, hvalue⟩ := valueFrom_eq_some_iff.mp h
      exact ⟨fun hnil => hne (by rw [hnil]; rfl), hdigits, hvalue⟩
  · intro h
    rw [value?, if_neg fun hnil => h.nonempty (List.isEmpty_iff.mp hnil)]
    exact valueFrom_eq_some_iff.mpr ⟨h.digits, h.value⟩

/-- A plus sign is no digit, so that there is one way to read a text. -/
theorem natural?_eq_some_iff {limit n : Nat} {s : String} :
    natural? limit s = some n ↔
      n ≤ limit ∧ ∃ cs, Numeral cs n ∧ (s.toList = cs ∨ s.toList = '+' :: cs) := by
  simp only [natural?, Option.filter_eq_some_iff, decide_eq_true_eq, value?_eq_some_iff]
  rw [and_comm, and_congr_right_iff]
  intro _
  split
  · rename_i cs hcs
    constructor
    · intro h
      exact ⟨cs, h, .inr hcs⟩
    · rintro ⟨ds, h, hds | hds⟩
      · have hplus := h.digits '+' (by rw [← hds, hcs]; exact List.mem_cons_self)
        cases hplus
      · rw [hcs] at hds
        cases hds
        exact h
  · rename_i hcs
    constructor
    · intro h
      exact ⟨_, h, .inl rfl⟩
    · rintro ⟨ds, h, hds | hds⟩
      · rw [hds]
        exact h
      · exact absurd hds (hcs ds)

end Decimal
end HttpCache
