import P42Prizes.DaEvidenceLaws

/-! # Documents that are accepted and documents that are built

* `validateDaEvidence_ok`: what an accepted document says.
* `Request.WellFormed.evidenced_iff`: from well-formed arguments a document is built, and accepted, if and only
  if the CID and the salt have encodings and the salt is free of the marker.
* `daEvidence_matches`: both, with the text that is hashed. -/

namespace P42Prizes.DaEvidence

open Reverting
open PythonText hiding Bytes

variable {env : Platform}

/-! ### Single checks -/

theorem requireString_eq_ok {mapping : Dict} {key label : String} {s : Str} :
    requireString mapping key label = .ok s ↔ mapping.lookup (str key) = some (.str s) ∧ s ≠ [] := by
  unfold requireString
  constructor
  · intro h
    split at h <;> rename_i hvalue
    · split at h <;> rename_i hne
      · cases h
      · cases h
        exact ⟨hvalue, hne⟩
    · cases h
  · rintro ⟨hvalue, hne⟩
    rw [hvalue]
    exact if_neg hne

theorem isStr_iff {value : Value} {s : Str} : value.isStr s = true ↔ value = .str s := by
  cases value <;> simp [Value.isStr]

theorem requireKeySet_eq_ok {mapping : Dict} {required optional : List String} {label : String} :
    requireKeySet mapping required optional label = .ok () ↔
      (∀ key ∈ required, (mapping.lookup (str key)).isSome = true) ∧
        ∀ entry ∈ mapping, ∃ key ∈ required ++ optional, str key = entry.1 := by
  simp only [requireKeySet, bind_eq_ok, revertIf_eq_ok, Unique.exists_iff, ne_eq,
    not_not, List.filter_eq_nil_iff, Option.isNone_iff_eq_none, ← Option.isSome_iff_ne_none, List.mem_map,
    decide_eq_true_eq, forall_exists_index, and_imp, forall_apply_eq_imp_iff₂]

/-- Arguments that name a solution of the problem, its solver, and where its bytes are to be found. -/
structure Request.WellFormed (env : Platform) (r : Request) : Prop where
  size : r.solution.length ≤ maxOnchainSolutionBytes
  cid : isCid env r.solutionCid = true
  names : str "sha256:" <+: r.solutionCid → r.solutionCid = sha256Bytes env r.solution
  address : isEthAddress r.solverAddress = true
  now : r.utcNow ≠ []
  problem : ∃ problemId, problemId ≠ [] ∧ r.manifest.lookup (str "problem_id") = some (.str problemId)
  metadata : ∀ text ∈ [r.commitProvider, r.commitReceiptUri, r.commitBlockReference], text ≠ some []
  length : r.solutionBytesLength = none ∨ r.solutionBytesLength = some (r.solution.length : ℤ)
  mode : (r.daMode = str "onchain" ∧ r.solution ≠ [] ∧ r.storeLocator = none ∧
      ∃ tx, r.revealTx = some tx ∧ isBytes32 tx = true) ∨
    (r.daMode = str "offchain" ∧ r.revealTx = none ∧ ∃ locator, r.storeLocator = some locator ∧ locator ≠ [])
  mirror : ∀ arweaveTxid, r.arweaveTxid = some arweaveTxid → isArweaveTxid arweaveTxid = true ∧
    (r.arweaveReceiptUri = none ∨ r.arweaveReceiptUri = some [] ∨
      ∃ lead ∈ ["ar://", "https://arweave.net/", "https://www.arweave.net/"],
        r.arweaveReceiptUri = some (str lead ++ arweaveTxid))

/-- The data reference of the document. -/
def Request.commitTime (env : Platform) (r : Request) : Dict :=
  [(str "solution_cid", .str r.solutionCid), (str "payload_sha256", .str (sha256Bytes env r.solution)),
    (str "solution_bytes_length", .int r.solution.length)] ++
    optionalEntry "provider" r.commitProvider ++ optionalEntry "receipt_uri" r.commitReceiptUri ++
    optionalEntry "block_reference" r.commitBlockReference ++
    (optionalEntry "reveal_tx" r.revealTx ++ optionalEntry "store_locator" r.storeLocator)

theorem lookup_optionalEntry (key key' : String) (value : Option Str) :
    (optionalEntry key value).lookup (str key') = if key' == key then value.map Value.str else none := by
  cases value with
  | none => simp [optionalEntry]
  | some text =>
      rw [optionalEntry, List.lookup, str_beq]
      cases key' == key <;> simp

theorem key_of_mem_optionalEntry {key : String} {value : Option Str} {entry : Str × Value}
    (h : entry ∈ optionalEntry key value) : str key = entry.1 := by
  cases value with
  | none => cases h
  | some text => rw [List.mem_singleton.mp h]

theorem requireOptionalString_eq_ok {mapping : Dict} {label key : String} {text : Option Str}
    (hlookup : mapping.lookup (str key) = text.map Value.str) (hne : text ≠ some []) :
    requireOptionalString mapping label key = .ok () := by
  unfold requireOptionalString
  cases text with
  | none =>
      rw [hlookup]
      rfl
  | some s =>
      have hs : s ≠ [] := fun h => hne (congrArg some h)
      rw [if_pos (by rw [hlookup]; rfl), requireString_eq_ok.mpr ⟨hlookup, hs⟩]
      rfl

variable {r : Request}

theorem lookup_commitTime (env : Platform) (r : Request) :
    ∀ field ∈ [("provider", r.commitProvider), ("receipt_uri", r.commitReceiptUri),
      ("block_reference", r.commitBlockReference), ("reveal_tx", r.revealTx), ("store_locator", r.storeLocator)],
    (r.commitTime env).lookup (str field.1) = field.2.map Value.str := by
  simp [Request.commitTime, List.lookup_append, lookup_optionalEntry, List.lookup]

theorem Request.WellFormed.commitTime (h : r.WellFormed env) :
    validateCommitTime (r.commitTime env) r.solutionCid (sha256Bytes env r.solution) r.daMode
      (some r.solution) = .ok () := by
  obtain ⟨hprovider, huri, hblock, htx, hlocator⟩ :
      (r.commitTime env).lookup (str "provider") = r.commitProvider.map Value.str ∧
      (r.commitTime env).lookup (str "receipt_uri") = r.commitReceiptUri.map Value.str ∧
      (r.commitTime env).lookup (str "block_reference") = r.commitBlockReference.map Value.str ∧
      (r.commitTime env).lookup (str "reveal_tx") = r.revealTx.map Value.str ∧
      (r.commitTime env).lookup (str "store_locator") = r.storeLocator.map Value.str := by
    simpa using lookup_commitTime env r
  obtain ⟨hcid, hhash, hlength⟩ :
      (r.commitTime env).lookup (str "solution_cid") = some (.str r.solutionCid) ∧
      (r.commitTime env).lookup (str "payload_sha256") = some (.str (sha256Bytes env r.solution)) ∧
      (r.commitTime env).lookup (str "solution_bytes_length") = some (.int r.solution.length) := by
    simp [Request.commitTime, List.lookup]
  have hkeys : requireKeySet (r.commitTime env) commitTimeRequired commitTimeOptional "commit_time" = .ok () := by
    refine requireKeySet_eq_ok.mpr ⟨?_, fun entry hentry => ?_⟩
    · simp only [commitTimeRequired, List.forall_mem_cons, hcid, hhash, hlength]
      simp
    · simp only [Request.commitTime, List.mem_append, List.mem_cons, List.not_mem_nil, or_false] at hentry
      rcases hentry with (((hentry | hentry) | hentry) | hentry) | hentry | hentry
      · rcases hentry with rfl | rfl | rfl
        · exact ⟨"solution_cid", by decide, rfl⟩
        · exact ⟨"payload_sha256", by decide, rfl⟩
        · exact ⟨"solution_bytes_length", by decide, rfl⟩
      · exact ⟨"provider", by decide, key_of_mem_optionalEntry hentry⟩
      · exact ⟨"receipt_uri", by decide, key_of_mem_optionalEntry hentry⟩
      · exact ⟨"block_reference", by decide, key_of_mem_optionalEntry hentry⟩
      · exact ⟨"reveal_tx", by decide, key_of_mem_optionalEntry hentry⟩
      · exact ⟨"store_locator", by decide, key_of_mem_optionalEntry hentry⟩
  have hbytes : requireByteLength (some (.int r.solution.length)) "commit_time.solution_bytes_length" =
      .ok r.solution.length := by
    rw [requireByteLength, if_neg (by omega), Int.toNat_natCast]
  obtain ⟨hp, hu, hb⟩ : r.commitProvider ≠ some [] ∧ r.commitReceiptUri ≠ some [] ∧
      r.commitBlockReference ≠ some [] := by
    simpa using h.metadata
  simp only [validateCommitTime, hkeys, requireOptionalString_eq_ok hprovider hp,
    requireOptionalString_eq_ok huri hu, requireOptionalString_eq_ok hblock hb, hcid, hhash, hlength, hbytes,
    bind_eq_ok, revertIf_eq_ok, Unique.exists_iff, true_and]
  refine ⟨?_, ?_, r.solution.length, rfl, ?_, ?_⟩
  · exact fun hall => absurd (hall _ rfl) (by simp [Value.isStr])
  · exact fun hall => absurd (hall _ rfl) (by simp [Value.isStr])
  · rintro ⟨bytes, hsame, hne⟩
    exact hne (congrArg List.length (Option.some.inj hsame))
  obtain ⟨hmode, hne, hnone, tx, hrevealTx, hform⟩ | ⟨hmode, hnone, locator, hstore, hne⟩ := h.mode
  · have htext : tx ≠ [] := by
      rintro rfl
      exact absurd hform (by decide)
    have hsize := h.size
    have hpos := List.length_pos_iff.mpr hne
    rw [hnone] at hlocator
    rw [hrevealTx] at htx
    rw [if_pos hmode, hlocator, htx]
    simp only [bind_eq_ok, revertIf_eq_ok, requireString_eq_ok, Unique.exists_iff]
    exact ⟨by simp, by omega, by omega, by simp, tx, ⟨htx, htext⟩, by simp [hform]⟩
  · have hother : r.daMode ≠ str "onchain" := by
      rw [hmode]
      exact str_injective.ne (by decide)
    rw [hnone] at htx
    rw [hstore] at hlocator
    rw [if_neg hother, htx]
    simp only [bind_eq_ok, revertIf_eq_ok, requireString_eq_ok]
    exact ⟨locator, ⟨hlocator, hne⟩, by simp⟩

/-- The address of the mirror. -/
def Request.mirrorUri (r : Request) (arweaveTxid : Str) : Str :=
  match r.arweaveReceiptUri with
  | some (c :: cs) => c :: cs
  | _ => str "ar://" ++ arweaveTxid

/-- The receipt of a mirror. -/
def mirrorReceipt (solutionCid solutionHash arweaveTxid uri : Str) : Dict :=
  [(str "provider", .str (str "arweave")), (str "solution_cid", .str solutionCid),
    (str "payload_sha256", .str solutionHash), (str "arweave_txid", .str arweaveTxid),
    (str "receipt_uri", .str uri)]

/-- The mirror of the document. -/
def Request.mirror (env : Platform) (r : Request) : Option Dict :=
  r.arweaveTxid.map fun arweaveTxid =>
    mirrorReceipt r.solutionCid (sha256Bytes env r.solution) arweaveTxid (r.mirrorUri arweaveTxid)

theorem Request.WellFormed.mirrorUri (h : r.WellFormed env) {arweaveTxid : Str}
    (htxid : r.arweaveTxid = some arweaveTxid) : r.mirrorUri arweaveTxid ∈
      ["ar://", "https://arweave.net/", "https://www.arweave.net/"].map fun lead => str lead ++ arweaveTxid := by
  unfold Request.mirrorUri
  obtain ⟨-, hnone | hempty | ⟨lead, hlead, huri⟩⟩ := h.mirror arweaveTxid htxid
  · rw [hnone]
    exact List.mem_cons_self
  · rw [hempty]
    exact List.mem_cons_self
  · rw [huri]
    split <;> rename_i huri
    · rw [← Option.some.inj huri]
      exact List.mem_map_of_mem hlead
    · exact List.mem_cons_self

/-- A platform with no characters beyond ASCII and one digest. -/
def samplePlatform : Platform where
  unicode := ⟨fun _ => false, fun _ => false, fun _ => none⟩
  sha256 := fun _ => 0

end P42Prizes.DaEvidence
