/-
  EntityStore/Proofs/Store/Payload.lean
  =====================================
  **Payloads that come back**: what a store encodes it decodes again, if neither the
  codec nor the payload transformer loses anything.
-/
import EntityStore.Proofs.Except
import EntityStore.Store.Basic

namespace EntityStore

namespace PayloadTransformer

/-- A transformer that takes every payload, never shortens one, and undoes itself. -/
def IsLossless (T : PayloadTransformer) : Prop :=
  ∀ payload, ∃ stored, T.encode payload = .ok stored ∧ T.decode stored = .ok payload ∧
    payload.length ≤ stored.length

theorem isLossless_identity : identity.IsLossless := by
  intro payload
  exact ⟨payload, rfl, rfl, Nat.le_refl _⟩

/-- Of a digest and what it stands in front of, the digest decides. -/
theorem openEnvelope_append {digest : Bytes} (h : digest.length = digestLength)
    (payload : Bytes) :
    openEnvelope (digest ++ payload) =
      if Sha256.digest payload = digest then .ok payload
      else .error (.decode "envelope digest mismatch") := by
  have hlong : ¬ (digest ++ payload).length < digestLength := by
    rw [List.length_append]
    omega
  rw [openEnvelope, if_neg hlong]
  simp only
  rw [List.drop_left' h, List.take_left' h]

theorem openEnvelope_digest (payload : Bytes) :
    openEnvelope (Sha256.digest payload ++ payload) = .ok payload :=
  (openEnvelope_append (Sha256.length_digest payload) payload).trans (if_pos rfl)

theorem isLossless_digestEnvelope : digestEnvelope.IsLossless := by
  intro payload
  refine ⟨Sha256.digest payload ++ payload, rfl, openEnvelope_digest payload, ?_⟩
  rw [List.length_append]
  omega

end PayloadTransformer

namespace Store

variable {σ α : Type} {S : Store σ}

theorem decodeValue_encodeValue (hpayloads : S.payloads.IsLossless) {codec : Codec α}
    {value found : α} {written stored : Bytes} (hwritten : codec.encode value = .ok written)
    (hread : codec.decode written = .ok found) (h : S.encodeValue codec value = .ok stored) :
    S.decodeValue codec stored = .ok found ∧ written.length ≤ stored.length := by
  obtain ⟨sealed, hsealed, hopened, hlength⟩ := hpayloads written
  unfold encodeValue at h
  simp only [hwritten, bind, Except.bind, hsealed] at h
  split at h
  · cases h
  · next hbound =>
    cases h
    refine ⟨?_, hlength⟩
    rw [decodeValue, if_neg hbound, hopened]
    exact hread

/-- Payloads that are kept as they are. -/
theorem encode_of_encodeValue (hpayloads : S.payloads = PayloadTransformer.identity)
    {codec : Codec α} {value : α} {stored : Bytes} (h : S.encodeValue codec value = .ok stored) :
    codec.encode value = .ok stored := by
  obtain ⟨written, hwritten, h⟩ := bind_eq_ok_iff.mp h
  obtain ⟨sealed, hsealed, h⟩ := bind_eq_ok_iff.mp h
  rw [hpayloads] at hsealed
  split at h
  · cases h
  · cases h
    rw [hwritten]
    exact hsealed

/-- Only its length can keep a value out. -/
theorem encodeValue_eq_error (hpayloads : S.payloads.IsLossless) {codec : Codec α} {value : α}
    {written : Bytes} {error : StoreError} (hwritten : codec.encode value = .ok written)
    (h : S.encodeValue codec value = .error error) : ∃ detail, error = .encode detail := by
  obtain ⟨sealed, hsealed, -, -⟩ := hpayloads written
  unfold encodeValue at h
  simp only [hwritten, bind, Except.bind, hsealed] at h
  split at h
  · cases h
    exact ⟨_, rfl⟩
  · cases h

end Store

end EntityStore
