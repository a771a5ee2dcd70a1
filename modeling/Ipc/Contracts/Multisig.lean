/-
**Weighted multi-signatures (`MultisignatureChecker`).**

`isValidWeightedMultiSignature` walks the signatures in order: each must recover (ECDSA
`tryRecover`, a parameter here: the signer of a hash and a signature, or nothing when the signature
does not parse) to the signatory at the same index, whose weight is then added; the first failure
is returned. The walk never compares two signatories, so an address listed twice is weighed twice.

* `weighSignatures_ok` — a successful walk checked every entry and summed every weight;
* `isValidWeightedMultiSignature_true` — a valid multi-signature has one signature per signatory,
  each recovering to it, and weights summing to the threshold or more.
-/

import Ipc.Contracts.Basic
import Ipc.Lib.System

namespace Ipc.Contracts

/-- `MultisignatureChecker.Error`, in the source's order. -/
inductive MultisigError
  | nil
  | invalidArrayLength
  | emptySignatures
  | invalidSignatory
  | invalidSignature
  | weightsSumLessThanThreshold
  deriving DecidableEq, Repr

/-- The `uint8` an error is cast to in `InvalidSignatureErr`. -/
def MultisigError.code : MultisigError → Nat
  | .nil => 0
  | .invalidArrayLength => 1
  | .emptySignatures => 2
  | .invalidSignatory => 3
  | .invalidSignature => 4
  | .weightsSumLessThanThreshold => 5

namespace MultisignatureChecker

variable (tryRecover : Nat → Bytes → Option Address) (hash : Nat)

/-- The loop of `isValidWeightedMultiSignature` over (signatory, weight, signature) entries, with
the weight summed so far. -/
def weighSignatures : List (Address × Nat × Bytes) → Nat → Except MultisigError Nat
  | [], weight => .ok weight
  | (signatory, w, signature) :: rest, weight =>
    match tryRecover hash signature with
    | none => .error .invalidSignature
    | some recovered =>
      if recovered ≠ signatory then .error .invalidSignatory
      else weighSignatures rest (weight + w)

/-- `isValidWeightedMultiSignature`. -/
def isValidWeightedMultiSignature (signatories : List Address) (weights : List Nat)
    (threshold : Nat) (signatures : List Bytes) : Bool × MultisigError :=
  if signatures.length = 0 then (false, .emptySignatures)
  else if signatures.length ≠ signatories.length ∨ signatures.length ≠ weights.length then
    (false, .invalidArrayLength)
  else
    match weighSignatures tryRecover hash (signatories.zip (weights.zip signatures)) 0 with
    | .error err => (false, err)
    | .ok weight =>
      if weight ≥ threshold then (true, .nil) else (false, .weightsSumLessThanThreshold)

/-- A successful walk recovered every entry's signatory and added every weight. -/
theorem weighSignatures_ok {entries : List (Address × Nat × Bytes)} {weight total : Nat}
    (ok : weighSignatures tryRecover hash entries weight = .ok total) :
    (∀ entry ∈ entries, tryRecover hash entry.2.2 = some entry.1) ∧
      total = weight + (entries.map fun entry => entry.2.1).sum := by
  induction entries generalizing weight with
  | nil =>
    cases ok
    simp
  | cons entry rest ih =>
    obtain ⟨signatory, w, signature⟩ := entry
    simp only [weighSignatures] at ok
    split at ok
    · cases ok
    · rename_i recovered found
      split at ok
      · cases ok
      · rename_i same
        obtain ⟨checked, summed⟩ := ih ok
        refine ⟨?_, ?_⟩
        · intro entry member
          rcases List.mem_cons.mp member with rfl | later
          · rw [found, not_not.mp same]
          · exact checked entry later
        · rw [summed, List.map_cons, List.sum_cons]
          dsimp only
          omega

/-- **A valid multi-signature**: one signature per signatory, each recovering to it, and weights
summing to at least the threshold. -/
theorem isValidWeightedMultiSignature_true {signatories : List Address} {weights : List Nat}
    {threshold : Nat} {signatures : List Bytes}
    (valid : (isValidWeightedMultiSignature tryRecover hash signatories weights threshold
      signatures).1 = true) :
    signatures ≠ [] ∧ signatures.length = signatories.length ∧
      signatures.length = weights.length ∧
      (∀ i (hi : i < signatories.length) (hs : i < signatures.length),
        tryRecover hash signatures[i] = some signatories[i]) ∧
      threshold ≤ weights.sum := by
  unfold isValidWeightedMultiSignature at valid
  split at valid
  · cases valid
  · rename_i nonempty
    split at valid
    · cases valid
    · rename_i lengths
      simp only [ne_eq, not_or, not_not] at lengths
      split at valid
      · cases valid
      · rename_i weight walked
        split at valid
        · rename_i enough
          obtain ⟨checked, summed⟩ := weighSignatures_ok tryRecover hash walked
          -- the middle column of the zipped entries is the weight list
          have column : ((signatories.zip (weights.zip signatures)).map fun entry => entry.2.1) =
              weights := by
            change List.map (Prod.fst ∘ Prod.snd) _ = _
            rw [← List.map_map, List.map_snd_zip (by simp; omega), List.map_fst_zip (by omega)]
          refine ⟨fun empty => nonempty (by simp [empty]), lengths.1, lengths.2, ?_, ?_⟩
          · intro i hi hs
            have hz : i < (signatories.zip (weights.zip signatures)).length := by simp; omega
            have := checked _ (List.getElem_mem hz)
            simpa using this
          · rw [summed, column] at enough
            omega
        · cases valid

end MultisignatureChecker

end Ipc.Contracts
