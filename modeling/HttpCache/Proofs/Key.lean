import HttpCache.Key
import HttpCache.Proofs.Text.FormUrl

/-!
# HttpCache.Proofs.Key

A key says exactly what its request asks for: the path, and for each parameter that matters its
values in order.

* `Request.Built` — the requests that the library makes; their paths hold no question mark.
* `Request.values` — the decoded values of a parameter, in order of appearance.
* `filter_mergeSort`, `eq_of_filter_eq` — a stable sort by name keeps the values of each name in
  their order, and is determined by them.
* `ofParams_eq_iff` — the path and the canonical parameters can be read off a key.
* `ofRequest_eq_iff` — two requests share a key exactly if they ask for the same.
-/

namespace HttpCache

namespace Request

/-- The requests that the library makes: for a target, from the octets of a connection, and with
other headers and another body. -/
inductive Built : Request → Prop where
  | ofTarget (method : Method) (target : String) : Built (Request.ofTarget method target)
  | parsed {s : Bytes} {r : Request} {offset : Nat} (h : parse s = .ok (r, offset)) : Built r
  | changed {r : Request} (h : Built r) (headers : Headers) (body : Bytes) :
      Built { r with headers, body }

theorem Built.mark_not_mem_path {r : Request} (h : Built r) : '?' ∉ r.path.toList := by
  induction h with
  | ofTarget method target => exact mark_not_mem_splitTarget target
  | @parsed s r offset h =>
    unfold parse at h
    split at h
    · cases h
    · cases h
      exact mark_not_mem_splitTarget _
  | changed _ _ _ ih => exact ih

/-- The decoded values of a parameter, in order of appearance. -/
def values (r : Request) (name : String) : List String :=
  (r.params.filter fun pair => pair.1 == name).map (·.2)

end Request

namespace Key

/-! ## The order by name -/

theorem byName_iff (a b : String × String) : byName a b = true ↔ a.1 ≤ b.1 := by
  simp [byName]

theorem byName_trans (a b c : String × String) (h₁ : byName a b = true) (h₂ : byName b c = true) :
    byName a c = true := by
  rw [byName_iff] at *
  exact String.le_trans h₁ h₂

theorem byName_total (a b : String × String) : (byName a b || byName b a) = true := by
  rw [Bool.or_eq_true, byName_iff, byName_iff]
  exact String.le_total a.1 b.1

def ofName (name : String) (ps : List (String × String)) : List (String × String) :=
  ps.filter fun pair => pair.1 == name

theorem mem_ofName {name : String} {ps : List (String × String)} {p : String × String} :
    p ∈ ofName name ps ↔ p ∈ ps ∧ p.1 = name := by
  simp [ofName]

theorem ofName_cons (name : String) (p : String × String) (ps : List (String × String)) :
    ofName name (p :: ps) = if p.1 = name then p :: ofName name ps else ofName name ps := by
  simp [ofName, List.filter_cons]

theorem pairwise_ofName (name : String) (ps : List (String × String)) :
    (ofName name ps).Pairwise fun a b => byName a b = true := by
  refine List.pairwise_of_forall_mem_list fun a ha b hb => ?_
  have hname : a.1 = b.1 := (mem_ofName.mp ha).2.trans (mem_ofName.mp hb).2.symm
  exact (byName_iff a b).mpr (hname ▸ String.le_refl a.1)

/-- A stable sort keeps the parameters of one name as they were. -/
theorem ofName_mergeSort (name : String) (ps : List (String × String)) :
    ofName name (ps.mergeSort byName) = ofName name ps := by
  have hsub : (ofName name ps).Sublist (ps.mergeSort byName) :=
    List.sublist_mergeSort byName_trans byName_total (pairwise_ofName name ps)
      List.filter_sublist
  have hsub' : (ofName name ps).Sublist (ofName name (ps.mergeSort byName)) := by
    have := hsub.filter fun pair => pair.1 == name
    simpa [ofName, List.filter_filter] using this
  have hlen : (ofName name (ps.mergeSort byName)).length = (ofName name ps).length :=
    ((List.mergeSort_perm ps byName).filter _).length_eq
  exact (hsub'.eq_of_length hlen.symm).symm

theorem name_le_of_mem {a p : String × String} {ps : List (String × String)}
    (h : (a :: ps).Pairwise fun a b => byName a b = true) (hp : p ∈ a :: ps) : a.1 ≤ p.1 := by
  rcases List.mem_cons.mp hp with rfl | hp
  · exact String.le_refl _
  · exact (byName_iff a p).mp (List.rel_of_pairwise_cons h hp)

theorem mem_of_ofName_eq {ps qs : List (String × String)}
    (h : ∀ name, ofName name ps = ofName name qs) {p : String × String} (hp : p ∈ ps) : p ∈ qs :=
  (mem_ofName.mp (h p.1 ▸ mem_ofName.mpr ⟨hp, rfl⟩)).1

/-- Sorted lists are equal if they agree name by name: the least name comes first in both. -/
theorem eq_of_ofName_eq {ps qs : List (String × String)}
    (hp : ps.Pairwise fun a b => byName a b = true)
    (hq : qs.Pairwise fun a b => byName a b = true)
    (h : ∀ name, ofName name ps = ofName name qs) : ps = qs := by
  induction ps generalizing qs with
  | nil =>
    cases qs with
    | nil => rfl
    | cons b qs =>
      exact absurd (mem_of_ofName_eq (fun name => (h name).symm) List.mem_cons_self)
        List.not_mem_nil
  | cons a ps ih =>
    cases qs with
    | nil => exact absurd (mem_of_ofName_eq h List.mem_cons_self) List.not_mem_nil
    | cons b qs =>
      have hb : b ∈ a :: ps := mem_of_ofName_eq (fun name => (h name).symm) List.mem_cons_self
      have ha : a ∈ b :: qs := mem_of_ofName_eq h List.mem_cons_self
      have hname : a.1 = b.1 := String.le_antisymm (name_le_of_mem hp hb) (name_le_of_mem hq ha)
      have hhead := h a.1
      rw [ofName_cons, ofName_cons, if_pos rfl, if_pos hname.symm] at hhead
      obtain ⟨rfl, -⟩ := List.cons.inj hhead
      have htail : ∀ name, ofName name ps = ofName name qs := by
        intro name
        have hn := h name
        rw [ofName_cons, ofName_cons] at hn
        split at hn
        · exact (List.cons.inj hn).2
        · exact hn
      rw [ih (List.Pairwise.of_cons hp) (List.Pairwise.of_cons hq) htail]

/-! ## The canonical parameters -/

theorem ofName_filter_isRetained {name : String} (h : name ∉ ignoredParams)
    (ps : List (String × String)) : ofName name (ps.filter isRetained) = ofName name ps := by
  rw [ofName, List.filter_filter, ofName]
  refine List.filter_congr fun p _ => ?_
  by_cases hp : p.1 = name
  · simp [hp, isRetained, h]
  · simp [hp]

theorem ofName_filter_ignored {name : String} (h : name ∈ ignoredParams)
    (ps : List (String × String)) : ofName name (ps.filter isRetained) = [] := by
  rw [ofName, List.filter_filter, List.filter_eq_nil_iff]
  intro p _ hp
  simp only [Bool.and_eq_true, beq_iff_eq] at hp
  simp [isRetained, hp.1, h] at hp

theorem canonicalParams_eq_iff (ps qs : List (String × String)) :
    canonicalParams ps = canonicalParams qs ↔
      ∀ name, name ∉ ignoredParams → ofName name ps = ofName name qs := by
  constructor
  · intro h name hname
    have hn := congrArg (ofName name) h
    rwa [canonicalParams, canonicalParams, ofName_mergeSort, ofName_mergeSort,
      ofName_filter_isRetained hname, ofName_filter_isRetained hname] at hn
  · intro h
    refine eq_of_ofName_eq (List.pairwise_mergeSort byName_trans byName_total _)
      (List.pairwise_mergeSort byName_trans byName_total _) fun name => ?_
    rw [canonicalParams, canonicalParams, ofName_mergeSort, ofName_mergeSort]
    by_cases hname : name ∈ ignoredParams
    · rw [ofName_filter_ignored hname, ofName_filter_ignored hname]
    · rw [ofName_filter_isRetained hname, ofName_filter_isRetained hname, h name hname]

theorem ofName_eq_map (name : String) (ps : List (String × String)) :
    ofName name ps = ((ofName name ps).map (·.2)).map fun value => (name, value) := by
  rw [List.map_map]
  conv => lhs; rw [← List.map_id (ofName name ps)]
  refine List.map_congr_left fun p hp => ?_
  rw [← (mem_ofName.mp hp).2]
  rfl

theorem ofName_eq_iff (name : String) (ps qs : List (String × String)) :
    ofName name ps = ofName name qs ↔
      (ofName name ps).map (·.2) = (ofName name qs).map (·.2) := by
  constructor
  · intro h
    rw [h]
  · intro h
    rw [ofName_eq_map name ps, ofName_eq_map name qs, h]

theorem canonicalQuery_eq_iff (ps qs : List (String × String)) :
    canonicalQuery ps = canonicalQuery qs ↔ canonicalParams ps = canonicalParams qs := by
  constructor
  · intro h
    have hp := congrArg FormUrl.pairs h
    rwa [canonicalQuery, canonicalQuery, FormUrl.pairs_encodePairs,
      FormUrl.pairs_encodePairs] at hp
  · intro h
    rw [canonicalQuery, canonicalQuery, h]

/-! ## The parts of a key -/

/-- What follows the path of a key: nothing, or the canonical query behind its mark. -/
def marked (canonical : String) : String := if canonical.isEmpty then "" else "?" ++ canonical

theorem ofParams_eq (keyPrefix path : String) (ps : List (String × String)) :
    ofParams keyPrefix path ps = keyPrefix ++ (path ++ marked (canonicalQuery ps)) := by
  rw [ofParams, String.append_assoc]
  rfl

theorem toList_marked (canonical : String) :
    (marked canonical).toList =
      if canonical.toList = [] then [] else '?' :: canonical.toList := by
  by_cases h : canonical = ""
  · simp [marked, h]
  · simp [marked, h]

theorem takeWhile_marked {path : List Char} (h : '?' ∉ path) (canonical : String) :
    (path ++ (marked canonical).toList).takeWhile (· != '?') = path := by
  have hpath : ∀ c ∈ path, (c != '?') = true := by
    intro c hc
    rw [bne_iff_ne]
    rintro rfl
    exact h hc
  rw [List.takeWhile_append_of_pos hpath, toList_marked]
  split <;> simp

theorem marked_injective {a b : String} (h : marked a = marked b) : a = b := by
  have hl := congrArg String.toList h
  rw [toList_marked, toList_marked] at hl
  apply String.toList_injective
  split at hl <;> split at hl
  · simp_all
  · cases hl
  · cases hl
  · exact (List.cons.inj hl).2

/-- The path and the canonical query can be read off a key. -/
theorem ofParams_eq_iff (keyPrefix : String) {path₁ path₂ : String} (h₁ : '?' ∉ path₁.toList)
    (h₂ : '?' ∉ path₂.toList) (ps qs : List (String × String)) :
    ofParams keyPrefix path₁ ps = ofParams keyPrefix path₂ qs ↔
      path₁ = path₂ ∧ canonicalQuery ps = canonicalQuery qs := by
  constructor
  · intro h
    rw [ofParams_eq, ofParams_eq, String.append_right_inj] at h
    have hl := congrArg (fun s : String => s.toList.takeWhile (· != '?')) h
    simp only [String.toList_append, takeWhile_marked h₁, takeWhile_marked h₂] at hl
    have hpath := String.toList_injective hl
    subst hpath
    rw [String.append_right_inj] at h
    exact ⟨rfl, marked_injective h⟩
  · rintro ⟨rfl, h⟩
    rw [ofParams_eq, ofParams_eq, h]

/-- **A key says exactly what its request asks for.** Requests share a key if and only if they
have the same path and the same values, in order, of each parameter but the ignored two. -/
theorem ofRequest_eq_iff (keyPrefix : String) {r₁ r₂ : Request} (h₁ : r₁.Built) (h₂ : r₂.Built) :
    ofRequest keyPrefix r₁ = ofRequest keyPrefix r₂ ↔
      r₁.path = r₂.path ∧
        ∀ name, name ≠ "apiKey" → name ≠ "cache" → r₁.values name = r₂.values name := by
  rw [ofRequest, ofRequest, ofParams_eq_iff keyPrefix h₁.mark_not_mem_path h₂.mark_not_mem_path,
    canonicalQuery_eq_iff, canonicalParams_eq_iff]
  have hname : ∀ name, name ∉ ignoredParams ↔ name ≠ "apiKey" ∧ name ≠ "cache" := by
    simp [ignoredParams, noCacheParam]
  simp only [hname, and_imp, ofName_eq_iff]
  rfl

/-- Other spellings, another order of names and ignored parameters lead to the same key. -/
theorem ofRequest_eq_respelled :
    (Request.ofTarget .get "/items?sort=a+b&page=2&apiKey=x").Built ∧
      (Request.ofTarget .head "/items?page=%32&cache=1&sort=a%20b").Built ∧
      ofRequest "v1:" (.ofTarget .get "/items?sort=a+b&page=2&apiKey=x") =
        ofRequest "v1:" (.ofTarget .head "/items?page=%32&cache=1&sort=a%20b") := by
  refine ⟨.ofTarget _ _, .ofTarget _ _,
    (ofRequest_eq_iff "v1:" (.ofTarget _ _) (.ofTarget _ _)).mpr ⟨by decide +kernel, ?_⟩⟩
  intro name hkey hcache
  have h₁ : (Request.ofTarget .get "/items?sort=a+b&page=2&apiKey=x").params =
      [("sort", "a b"), ("page", "2"), ("apiKey", "x")] := by decide +kernel
  have h₂ : (Request.ofTarget .head "/items?page=%32&cache=1&sort=a%20b").params =
      [("page", "2"), ("cache", "1"), ("sort", "a b")] := by decide +kernel
  rw [Request.values, Request.values, h₁, h₂]
  by_cases hsort : "sort" = name
  · subst hsort
    decide
  · simp [List.filter_cons, hsort, hkey.symm, hcache.symm]

end Key
end HttpCache
