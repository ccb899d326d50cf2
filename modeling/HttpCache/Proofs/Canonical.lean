import HttpCache.Proofs.Key

/-!
# HttpCache.Proofs.Canonical

A key without a prefix is itself a target, and the canonical one of the requests that share it.

* `Request.canonical` — the request for the key of a request.
* `ofName_canonicalParams` — canonical parameters have the values of each name that matters, and
  none of the ignored two; so they are canonical again (`canonicalParams_canonicalParams`).
* `path_canonical`, `params_canonical` — the target is cut between the path and the canonical
  query, and the query is decoded to the parameters that it was made of.
* `ofRequest_canonical` — the canonical request has the same key and asks for the same.
-/

namespace HttpCache

/-- The request for the key of a request. -/
def Request.canonical (method : Method) (r : Request) : Request :=
  .ofTarget method (Key.ofRequest "" r)

namespace Key

/-! ## Canonical parameters -/

variable {name : String}

theorem ofName_canonicalParams (h : name ∉ ignoredParams) (ps : List (String × String)) :
    ofName name (canonicalParams ps) = ofName name ps := by
  rw [canonicalParams, ofName_mergeSort, ofName_filter_isRetained h]

theorem ofName_canonicalParams_ignored (h : name ∈ ignoredParams) (ps : List (String × String)) :
    ofName name (canonicalParams ps) = [] := by
  rw [canonicalParams, ofName_mergeSort, ofName_filter_ignored h]

theorem canonicalParams_canonicalParams (ps : List (String × String)) :
    canonicalParams (canonicalParams ps) = canonicalParams ps :=
  (canonicalParams_eq_iff _ _).mpr fun _ h => ofName_canonicalParams h ps

/-! ## The target of a key -/

theorem splitTarget_marked {path : String} (h : '?' ∉ path.toList) (canonical : String) :
    Request.splitTarget (path ++ marked canonical) =
      (path, if canonical = "" then none else some canonical) := by
  have hpath : ∀ c ∈ path.toList, (c != '?') = true := by
    intro c hc
    rw [bne_iff_ne]
    rintro rfl
    exact h hc
  have htake := takeWhile_marked h canonical
  have hdrop : (path.toList ++ (marked canonical).toList).dropWhile (· != '?') =
      (marked canonical).toList := by
    rw [List.dropWhile_append_of_pos hpath, toList_marked]
    split <;> simp
  rw [Request.splitTarget, String.toList_append, htake, hdrop, toList_marked, String.ofList_toList]
  by_cases hc : canonical = ""
  · simp [hc]
  · simp [hc]

variable {r : Request} (method : Method)

theorem ofRequest_eq (r : Request) :
    ofRequest "" r = r.path ++ marked (canonicalQuery r.params) := by
  rw [ofRequest, ofParams_eq, String.empty_append]

theorem path_canonical (h : r.Built) : (r.canonical method).path = r.path := by
  rw [Request.canonical, Request.ofTarget, ofRequest_eq, splitTarget_marked h.mark_not_mem_path]

theorem query_canonical (h : r.Built) :
    (r.canonical method).query =
      if canonicalQuery r.params = "" then none else some (canonicalQuery r.params) := by
  rw [Request.canonical, Request.ofTarget, ofRequest_eq, splitTarget_marked h.mark_not_mem_path]

/-- No parameters make a key without a query, which is read as no parameters again. -/
theorem params_canonical (h : r.Built) :
    (r.canonical method).params = canonicalParams r.params := by
  have hpairs : FormUrl.pairs (canonicalQuery r.params) = canonicalParams r.params :=
    FormUrl.pairs_encodePairs _
  rw [Request.params, query_canonical method h]
  by_cases hc : canonicalQuery r.params = ""
  · rw [hc] at hpairs
    rw [if_pos hc]
    exact hpairs
  · rw [if_neg hc]
    exact hpairs

theorem queryParam?_eq (r : Request) (name : String) :
    r.queryParam? name = (ofName name r.params).getLast?.map (·.2) := rfl

/-- **A key is a target that asks for the same.** The request for a key has that key, the path of
the request that the key was made for, and the same last value of each parameter but the ignored
two, which it has no value of. -/
theorem ofRequest_canonical (method : Method) {r : Request} (h : r.Built) :
    ofRequest "" (r.canonical method) = ofRequest "" r ∧
      (r.canonical method).path = r.path ∧
      (∀ name, name ≠ "apiKey" → name ≠ "cache" →
        (r.canonical method).queryParam? name = r.queryParam? name) ∧
      (r.canonical method).queryParam? "apiKey" = none ∧
      (r.canonical method).queryParam? "cache" = none := by
  have hpath := path_canonical method h
  have hparams := params_canonical method h
  refine ⟨?_, hpath, fun name hkey hcache => ?_, ?_, ?_⟩
  · rw [ofRequest_eq, ofRequest_eq, hpath, hparams, canonicalQuery, canonicalQuery,
      canonicalParams_canonicalParams]
  · have hname : name ∉ ignoredParams := by simp [ignoredParams, noCacheParam, hkey, hcache]
    rw [queryParam?_eq, queryParam?_eq, hparams, ofName_canonicalParams hname]
  · rw [queryParam?_eq, hparams, ofName_canonicalParams_ignored (by decide)]
    rfl
  · rw [queryParam?_eq, hparams, ofName_canonicalParams_ignored (by decide)]
    rfl

/-- An empty piece, an empty name, an escape that is none, octets that are no UTF-8, a repeated
name and an ignored parameter. -/
def malformedRequest : Request := .ofTarget .get "/a?b=%zz&&=+&a=%FF&b=&cache=%66alse"

/-- The malformed query has a canonical form that asks for the same. -/
theorem ofRequest_canonical_malformed :
    malformedRequest.Built ∧
      ofRequest "" (malformedRequest.canonical .head) = ofRequest "" malformedRequest ∧
      (malformedRequest.canonical .head).path = "/a" ∧
      (malformedRequest.canonical .head).queryParam? "" = some " " ∧
      (malformedRequest.canonical .head).queryParam? "a" = some "\uFFFD" ∧
      (malformedRequest.canonical .head).queryParam? "b" = some "" ∧
      (malformedRequest.canonical .head).queryParam? "cache" = none := by
  have hb : malformedRequest.Built := .ofTarget _ _
  obtain ⟨hkey, hpath, hvalue, -, hcache⟩ := ofRequest_canonical .head hb
  refine ⟨hb, hkey, hpath.trans (by decide +kernel), ?_, ?_, ?_, hcache⟩
  · exact (hvalue "" (by decide) (by decide)).trans (by decide +kernel)
  · exact (hvalue "a" (by decide) (by decide)).trans (by decide +kernel)
  · exact (hvalue "b" (by decide) (by decide)).trans (by decide +kernel)

end Key
end HttpCache
