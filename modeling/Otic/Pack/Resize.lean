import Otic.Pack.Course
import Otic.Pack.Pack

/-!
# The bucket and its pointers

`Channel` counts in offsets.  Here the bucket is what `otic_pack_channel_init` and
`otic_pack_channel_resizeBucket` make of it: three pointers, the size of the block they
point into and that of `ztd_out`.  `Holds` says that such a bucket is that of a channel,
and the operations keep it.  `resizeBucket` moves neither `top` nor `ztd_out`:
`bucket_wellFormed_iff` says when this goes well.
-/

namespace Otic.Pack

/-- The part of a channel that is resized, with addresses.  `block` is what lies behind
`cache`, `ztdOut` the size of the compressor's block. -/
structure Bucket where
  parent : Parent
  channelId : UInt8
  state : OticState
  cache : Nat
  top : Nat
  threshold : Nat
  cacheSize : UInt32
  ztdOut : Nat
  block : Nat → UInt8

/-- A channel with another bucket size. -/
def Channel.resized (ch : Channel) (bucketSize : UInt32) : Channel :=
  { ch with
    base := { ch.base with cacheSize := bucketSize }
    threshold := bucketSize.toNat - OTIC_PACK_CACHE_TOP_LIMIT.toNat }

namespace Bucket

/-- `otic_pack_channel_init`, where `malloc` returns `address` for the cache; the offset
of the threshold is computed in 32 bits. -/
def init (parent : Parent) (id : UInt8) (bucketSize : UInt32) (address : Nat)
    (garbage : Nat → UInt8) : Bucket where
  parent := parent
  channelId := id
  state := .opened
  cache := address
  top := address
  threshold := address + (bucketSize - OTIC_PACK_CACHE_TOP_LIMIT).toNat
  cacheSize := bucketSize
  ztdOut := bucketSize.toNat
  block := garbage

/-- The label `fail` of `otic_pack_channel_resizeBucket`. -/
def resizeFailed (b : Bucket) (error : OticError) : Bucket :=
  { b with parent := { b.parent with error := error, state := .onError } }

/-- `otic_meta_data_size_t` of a new size. -/
def sizeFrame (b : Bucket) (bucketSize : UInt32) : List UInt8 :=
  MetaType.chunkSize.toByte :: b.channelId :: Bytes.ofUInt32 bucketSize

/-- `otic_pack_channel_resizeBucket`, where `realloc` returns `ptr`, null as `none`.  The
result of the flusher is dropped. -/
def resizeBucket (b : Bucket) (bucketSize : UInt32) (ptr : Option Nat)
    (garbage : Nat → UInt8) : Bool × Bucket :=
  if b.state ≠ .opened then (false, b.resizeFailed .atInvalidState)
  else
    let bucketSize := OticPack.effectiveSize bucketSize
    if ¬ ((b.top : Int) - b.cache < bucketSize.toNat ∧ 1024 < bucketSize) then
      (false, b.resizeFailed .allocationFailure)
    else
      match ptr with
      | none => (false, { b with parent := { b.parent with error := .allocationFailure } })
      | some ptr =>
          let (_, parent) := b.parent.flusher (b.sizeFrame bucketSize)
          (true,
            { b with
              parent := parent
              cacheSize := bucketSize
              cache := ptr
              threshold := ptr + bucketSize.toNat - OTIC_PACK_CACHE_TOP_LIMIT.toNat
              block := fun n =>
                if n < min b.cacheSize.toNat bucketSize.toNat then b.block n else garbage n })

/-- The bytes from `cache` to `top`. -/
def pending (b : Bucket) : List UInt8 := (List.range (b.top - b.cache)).map b.block

/-- `top` points into the block, or right behind it. -/
structure Placed (b : Bucket) : Prop where
  lower : b.cache ≤ b.top
  upper : b.top ≤ b.cache + b.cacheSize.toNat

/-- `top` is in the block and not above the threshold, which leaves 512 bytes free, and
the compressor's block is as large as the bucket. -/
structure WellFormed (b : Bucket) : Prop where
  lower : b.cache ≤ b.top
  top : b.top ≤ b.threshold
  threshold : b.threshold + OTIC_PACK_CACHE_TOP_LIMIT.toNat ≤ b.cache + b.cacheSize.toNat
  ztdOut : b.cacheSize.toNat ≤ b.ztdOut

/-- The offset of `top` and the pending bytes are as before. -/
structure Kept (b b' : Bucket) : Prop where
  offset : (b'.top : Int) - b'.cache = b.top - b.cache
  pending : b'.pending = b.pending

/-! ### The bucket of a channel -/

/-- Where the bytes of an inject go. -/
def put (b : Bucket) (bytes : List UInt8) : Bucket :=
  { b with
    top := b.top + bytes.length
    block := fun n =>
      if b.top - b.cache ≤ n then (bytes[n - (b.top - b.cache)]?).getD (b.block n) else b.block n }

/-- What a flush that succeeds does. -/
def flushed (b : Bucket) : Bucket := { b with top := b.cache }

/-- A bucket that holds what the channel has pending. -/
structure Holds (b : Bucket) (ch : Channel) : Prop where
  lower : b.cache ≤ b.top
  pending : b.pending = ch.pending
  threshold : b.threshold = b.cache + ch.threshold
  cacheSize : b.cacheSize = ch.base.cacheSize

theorem holds_init (parent : Parent) (id channelType : UInt8) (bucketSize : UInt32) (address : Nat)
    (garbage : Nat → UInt8) :
    (init parent id bucketSize address garbage).Holds (Channel.init id channelType bucketSize) where
  lower := le_refl _
  pending := by simp [Bucket.pending, init, Channel.init]
  threshold := rfl
  cacheSize := rfl

variable {b : Bucket} {ch : Channel}

theorem Holds.put (hb : b.Holds ch) (bytes : List UInt8) : (b.put bytes).Holds (ch.put bytes) where
  lower := by
    have hlower := hb.lower
    change b.cache ≤ b.top + bytes.length
    omega
  pending := by
    have hlower := hb.lower
    have hlength : b.top + bytes.length - b.cache = (b.top - b.cache) + bytes.length := by omega
    change (List.range (b.top + bytes.length - b.cache)).map (b.put bytes).block =
      ch.pending ++ bytes
    rw [hlength, List.range_add, List.map_append, ← hb.pending]
    congr 1
    · -- the bytes below the old `top` are not touched
      apply List.map_congr_left
      intro n hn
      have hbelow := List.mem_range.mp hn
      exact if_neg (by omega)
    · rw [List.map_map]
      apply List.ext_getElem
      · simp
      · intro n hn hn'
        have hlt : n < bytes.length := hn'
        rw [List.getElem_map, List.getElem_range]
        change (if b.top - b.cache ≤ b.top - b.cache + n then
          (bytes[b.top - b.cache + n - (b.top - b.cache)]?).getD _ else _) = _
        rw [if_pos (Nat.le_add_right _ _), Nat.add_sub_cancel_left, List.getElem?_eq_getElem hlt]
        rfl
  threshold := hb.threshold
  cacheSize := hb.cacheSize

theorem Holds.flushed (hb : b.Holds ch) : b.flushed.Holds ch.flushed where
  lower := le_refl _
  pending := by simp [Bucket.pending, Bucket.flushed, Channel.flushed]
  threshold := hb.threshold
  cacheSize := hb.cacheSize

/-! ### Resizing -/

/-- What a resize that returns 1 has checked, and what it does. -/
theorem resizeBucket_true {bucketSize : UInt32} {ptr : Option Nat} {garbage : Nat → UInt8}
    (hok : (b.resizeBucket bucketSize ptr garbage).1 = true) :
    ∃ address, ptr = some address ∧ 1024 < (OticPack.effectiveSize bucketSize).toNat ∧
      (b.resizeBucket bucketSize ptr garbage).2 =
        { b with
          parent := (b.parent.flusher (b.sizeFrame (OticPack.effectiveSize bucketSize))).2
          cacheSize := OticPack.effectiveSize bucketSize
          cache := address
          threshold := address + (OticPack.effectiveSize bucketSize).toNat -
            OTIC_PACK_CACHE_TOP_LIMIT.toNat
          block := fun n =>
            if n < min b.cacheSize.toNat (OticPack.effectiveSize bucketSize).toNat then b.block n
            else garbage n } := by
  unfold resizeBucket at hok ⊢
  split at hok
  · cases hok
  rename_i hopened
  dsimp only at hok
  split at hok
  · cases hok
  rename_i hchecked
  rw [not_not, UInt32.lt_iff_toNat_lt] at hchecked
  cases ptr with
  | none => cases hok
  | some address =>
    refine ⟨address, rfl, hchecked.2, ?_⟩
    rw [if_neg hopened]
    dsimp only
    rw [if_neg (by rw [not_not, UInt32.lt_iff_toNat_lt]; exact hchecked)]

theorem wellFormed_init (parent : Parent) (id : UInt8) (bucketSize : UInt32) (address : Nat)
    (garbage : Nat → UInt8) :
    (init parent id bucketSize address garbage).WellFormed ↔
      OTIC_PACK_CACHE_TOP_LIMIT ≤ bucketSize := by
  have hsub := UInt32.toNat_sub bucketSize OTIC_PACK_CACHE_TOP_LIMIT
  have hlimit : OTIC_PACK_CACHE_TOP_LIMIT.toNat = 512 := rfl
  have hlt := bucketSize.toNat_lt
  rw [UInt32.le_iff_toNat_le]
  rw [hlimit] at hsub ⊢
  constructor
  · intro hformed
    have hthreshold := hformed.threshold
    change address + (bucketSize - OTIC_PACK_CACHE_TOP_LIMIT).toNat + 512 ≤
      address + bucketSize.toNat at hthreshold
    omega
  · intro hsize
    refine ⟨le_refl _, Nat.le_add_right _ _, ?_, le_refl _⟩
    change address + (bucketSize - OTIC_PACK_CACHE_TOP_LIMIT).toNat + 512 ≤
      address + bucketSize.toNat
    omega

theorem wellFormed_resizeBucket {bucketSize : UInt32} {ptr : Option Nat} {garbage : Nat → UInt8}
    (hplaced : b.Placed) (hok : (b.resizeBucket bucketSize ptr garbage).1 = true) :
    (b.resizeBucket bucketSize ptr garbage).2.WellFormed ∧
        b.Kept (b.resizeBucket bucketSize ptr garbage).2 ↔
      ptr = some b.cache ∧ (OticPack.effectiveSize bucketSize).toNat ≤ b.ztdOut ∧
        b.top - b.cache + OTIC_PACK_CACHE_TOP_LIMIT.toNat ≤
          (OticPack.effectiveSize bucketSize).toNat := by
  obtain ⟨address, rfl, hlarge, hout⟩ := resizeBucket_true hok
  have hlimit : OTIC_PACK_CACHE_TOP_LIMIT.toNat = 512 := rfl
  obtain ⟨hlower, hupper⟩ := hplaced
  rw [hout, Option.some.injEq, hlimit]
  constructor
  · rintro ⟨hformed, hkept⟩
    have hoffset : (b.top : Int) - address = b.top - b.cache := hkept.offset
    have hztdOut : (OticPack.effectiveSize bucketSize).toNat ≤ b.ztdOut := hformed.ztdOut
    have htop : b.top ≤ address + (OticPack.effectiveSize bucketSize).toNat - 512 := hformed.top
    exact ⟨by omega, hztdOut, by omega⟩
  · rintro ⟨rfl, hztdOut, hroom⟩
    refine ⟨⟨hlower, ?_, ?_, hztdOut⟩, rfl, ?_⟩
    · change b.top ≤ b.cache + (OticPack.effectiveSize bucketSize).toNat - 512
      omega
    · change b.cache + (OticPack.effectiveSize bucketSize).toNat - 512 + 512 ≤
        b.cache + (OticPack.effectiveSize bucketSize).toNat
      omega
    · -- `realloc` kept the bytes below both sizes
      apply List.map_congr_left
      intro n hn
      have hbelow := List.mem_range.mp hn
      change n < b.top - b.cache at hbelow
      exact if_pos (by omega)

theorem Holds.resized (hb : b.Holds ch) {bucketSize : UInt32} {ptr : Option Nat}
    {garbage : Nat → UInt8}
    (hok : (b.resizeBucket bucketSize ptr garbage).1 = true)
    (hkept : b.Kept (b.resizeBucket bucketSize ptr garbage).2) :
    (b.resizeBucket bucketSize ptr garbage).2.Holds
      (ch.resized (OticPack.effectiveSize bucketSize)) := by
  obtain ⟨address, rfl, hlarge, hout⟩ := resizeBucket_true hok
  have hlimit : OTIC_PACK_CACHE_TOP_LIMIT.toNat = 512 := rfl
  have hpending := hkept.pending
  have hoffset := hkept.offset
  have hlower := hb.lower
  rw [hout] at hpending hoffset ⊢
  change (b.top : Int) - address = b.top - b.cache at hoffset
  refine ⟨?_, hpending.trans hb.pending, ?_, rfl⟩
  · change address ≤ b.top
    omega
  · change address + (OticPack.effectiveSize bucketSize).toNat - 512 =
      address + ((OticPack.effectiveSize bucketSize).toNat - 512)
    omega

/-- **Exactly when a bucket is well formed** after it was defined, and after a resize. -/
theorem bucket_wellFormed_iff (bucketSize : UInt32) (address : Nat) (ptr : Option Nat)
    (garbage : Nat → UInt8) :
    (∀ (pack : OticPack) (channelType id : UInt8),
      (pack.defineChannel channelType id bucketSize).1 = true →
        ((init pack.parent id (OticPack.effectiveSize bucketSize) address garbage).WellFormed ↔
          OTIC_PACK_CACHE_TOP_LIMIT ≤ OticPack.effectiveSize bucketSize)) ∧
      ∀ b : Bucket, b.Placed → (b.resizeBucket bucketSize ptr garbage).1 = true →
        ((b.resizeBucket bucketSize ptr garbage).2.WellFormed ∧
            b.Kept (b.resizeBucket bucketSize ptr garbage).2 ↔
          ptr = some b.cache ∧ (OticPack.effectiveSize bucketSize).toNat ≤ b.ztdOut ∧
            b.top - b.cache + OTIC_PACK_CACHE_TOP_LIMIT.toNat ≤
              (OticPack.effectiveSize bucketSize).toNat) := by
  constructor
  · intro pack channelType id _
    exact wellFormed_init pack.parent id _ address garbage
  · intro b hplaced hok
    exact wellFormed_resizeBucket hplaced hok

/-- The bucket of a channel of 2048 bytes. -/
def twoKilobytes : Bucket :=
  init ⟨[], [], [], .none, .opened⟩ 1 2048 0x10000 fun _ => 0

/-- A smaller size at the same address is fine. -/
theorem wellFormed_oneAndAHalfKilobytes :
    (twoKilobytes.resizeBucket 1536 (some 0x10000) fun _ => 0).2.WellFormed ∧
      twoKilobytes.Kept (twoKilobytes.resizeBucket 1536 (some 0x10000) fun _ => 0).2 :=
  ((bucket_wellFormed_iff 1536 0x10000 (some 0x10000) fun _ => 0).2 twoKilobytes
    ⟨by decide, by decide⟩ (by decide)).mpr ⟨rfl, by decide, by decide⟩

/-- Four kilobytes at the same address: the compressor's block stays at two. -/
theorem not_wellFormed_fourKilobytes :
    (twoKilobytes.resizeBucket 4096 (some 0x10000) fun _ => 0).1 = true ∧
      ¬ (twoKilobytes.resizeBucket 4096 (some 0x10000) fun _ => 0).2.WellFormed := by
  refine ⟨by decide, ?_⟩
  intro hformed
  have hztdOut := hformed.ztdOut
  revert hztdOut
  decide

end Bucket

end Otic.Pack
