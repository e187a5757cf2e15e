import SortedBlob.Proofs.BuilderContents
import SortedBlob.Proofs.Soundness
import SortedBlob.Sink

/-!
What is added to a builder is what lookups in its blob find, and nothing else.
-/

namespace SortedBlob.Builder

variable {b : Builder} {config : Config}

/-- The trailer is found where it was written, so a load comes to what
its check comes to. -/
theorem WellFormed.eval_load_eq (h : b.WellFormed) (fits : b.blob.length < UInt64.size)
    (config : Config) :
    (Trailer.load config).eval (Store.ofBytes b.blob) =
      .ok ((b.trailer.validate (Store.ofBytes b.blob).length config).map fun _ =>
        b.trailer) := by
  have long : ¬ (Store.ofBytes b.blob).length < Trailer.size := by
    have fitsIn := h.fitsIn fits
    rw [Trailer.FitsIn] at fitsIn
    rw [UInt64.lt_iff_toNat_lt]
    omega
  have decoded := Trailer.decode_encode (t := b.trailer) rfl config.verifyTrailerChecksum
  rw [Trailer.load, Plan.eval, if_neg long, Plan.eval_read (h.read_trailer fits), Plan.eval]
  simp only [decoded, bind, Except.bind]
  cases b.trailer.validate (Store.ofBytes b.blob).length config <;> rfl

theorem WellFormed.eval_load (h : b.WellFormed) (fits : b.blob.length < UInt64.size)
    (allowed : b.trailer.AllowedBy config) :
    (Trailer.load config).eval (Store.ofBytes b.blob) = .ok (.ok b.trailer) := by
  rw [h.eval_load_eq fits, Trailer.validate_eq_ok_iff.mpr ⟨allowed, h.fitsIn fits⟩]
  rfl

theorem WellFormed.eval_lookup (h : b.WellFormed) (fits : b.blob.length < UInt64.size)
    (allowed : b.trailer.AllowedBy config) (key : Bytes) :
    ((Query.lookup key).whole config).eval (Store.ofBytes b.blob) =
      .ok (if key.length = b.keySize.toNat then .ok (.value (b.entries.lookup key))
        else .error (.invalidKey b.keySize key.length)) := by
  rw [Query.eval_whole (h.eval_load fits allowed), Query.plan, Plan.eval_map]
  by_cases right : key.length = b.keySize.toNat
  · have sorted : StrictlySorted (b.trailer.recordsIn b.blob) := by
      rw [h.recordsIn_blob fits]
      exact Entries.strictlySorted_records h.sorted 0
    rw [if_pos right, (h.fitsIn fits).eval_lookup sorted config right, h.valueIn_blob fits]
    rfl
  · have refused : b.trailer.find config key =
        .done (.error (.invalidKey b.keySize key.length)) := if_pos right
    rw [if_neg right, Trailer.lookup, refused]
    rfl

/-- Whatever is tried to be added, accepted or not: each of any number of lookups in the
blob that is made comes to the value that was accepted for its key, to nothing if none was,
or to a complaint about the length of the key. -/
theorem lookups_of_build {keySize : UInt32} (positive : keySize ≠ 0) (adds : Entries)
    {config : Config} (allowed : keySize ≤ config.maxKeySize)
    (expected : ∀ size, config.expectedKeySize = some size → size = keySize) :
    ∃ b blob, new keySize = .ok b ∧ ((b.accepted adds).map Prod.fst).Nodup ∧
      (b.addAll adds).finish = .ok blob ∧
      (blob.length < UInt64.size → ∀ keys : List Bytes,
        (Session.askAll (Store.ofBytes blob).source (keys.map .lookup)
            (Session.new config) ()).1 =
          keys.map fun key => .ok <|
            if key.length = keySize.toNat then .ok (.value ((b.accepted adds).lookup key))
            else .error (.invalidKey keySize key.length)) := by
  have made : new keySize = .ok ⟨keySize, []⟩ := if_neg positive
  obtain ⟨fresh, _, _⟩ := wellFormed_of_new made
  refine ⟨_, _, made, (fresh.nodup_accepted adds).1, finish_eq _, fun fits keys => ?_⟩
  have wellFormed := fresh.addAll adds
  have size := keySize_addAll ⟨keySize, []⟩ adds
  have trailer : (addAll ⟨keySize, []⟩ adds).trailer.keySize = keySize := size
  have fine : (addAll ⟨keySize, []⟩ adds).trailer.AllowedBy config := by
    rw [Trailer.AllowedBy, trailer]
    exact ⟨positive, allowed, expected⟩
  refine Session.sound_new.askAll_eval (fun key => ?_) keys
  have outcome := wellFormed.eval_lookup fits fine key
  rw [size, fresh.lookup_addAll adds key] at outcome
  exact outcome

/-- Of four adds the second repeats a key and the third has a key of the wrong length. -/
theorem lookups_of_build_of_two :
    let adds : Entries := [([5], [9, 9]), ([5], [1]), ([1, 2], [3]), ([4], [])]
    let keys : List Bytes := [[5], [4], [6], []]
    (1 : UInt32) ≠ 0 ∧ (1 : UInt32) ≤ Config.maxKeySize {} ∧
      ∃ b blob, new 1 = .ok b ∧ (b.addAll adds).finish = .ok blob ∧
        blob.length < UInt64.size ∧
        (Session.askAll (Store.ofBytes blob).source (keys.map .lookup)
            (Session.new {}) ()).1 =
          [.ok (.ok (.value (some [9, 9]))), .ok (.ok (.value (some []))),
            .ok (.ok (.value none)), .ok (.error (.invalidKey 1 0))] := by
  have positive : (1 : UInt32) ≠ 0 := by decide
  have allowed : (1 : UInt32) ≤ Config.maxKeySize {} := by decide
  obtain ⟨b, blob, made, _, finish, outcome⟩ := lookups_of_build positive
    [([5], [9, 9]), ([5], [1]), ([1, 2], [3]), ([4], [])] allowed nofun
  obtain rfl : ⟨1, []⟩ = b := Except.ok.inj ((if_neg positive).symm.trans made)
  obtain rfl : _ = blob := Except.ok.inj ((finish_eq _).symm.trans finish)
  have fits :
    (addAll ⟨1, []⟩ [([5], [9, 9]), ([5], [1]), ([1, 2], [3]), ([4], [])]).blob.length <
      UInt64.size := by decide +kernel
  exact ⟨positive, allowed, _, _, made, finish, fits,
    (outcome fits [[5], [4], [6], []]).trans (by decide +kernel)⟩

end SortedBlob.Builder
