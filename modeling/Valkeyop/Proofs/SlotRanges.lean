import Valkeyop.Cluster.Parse
import Valkeyop.Slots

/-!
# Ranges of slots

`internal/slots` splits the slot space and writes ranges down; `internal/cluster` reads
them back. The split is a partition whose parts differ by one slot at most, for any
number of shards. What is written is read back as it was, although writer and reader
have two forms each, one for a single slot and one for a range: a printed number holds
neither a dash nor a comma.
-/

namespace Valkeyop.Slots

open Valkeyop.Lib Valkeyop.Lib.Text Valkeyop.Cluster

/-! ## The split -/

section

variable {n i : Nat}

theorem mem_evenRange {s : Nat} :
    ((evenRange n i).start ≤ s ∧ (s : Int) ≤ (evenRange n i).stop) ↔
      cutAt 16384 n i ≤ s ∧ s < cutAt 16384 n (i + 1) := by
  rw [start_evenRange, stop_evenRange]
  omega

/-- Every slot is in one range and in no other. -/
theorem existsUnique_distribute (hn : 0 < n) {s : Int} (hs : 0 ≤ s) (hs' : s ≤ 16383) :
    ∃! i : ℕ, ∃ r, (distribute n)[i]? = some r ∧ r.start ≤ s ∧ s ≤ r.stop := by
  lift s to Nat using hs
  have hslot : s < 16384 := by omega
  obtain ⟨i, hi, hmem⟩ := exists_run hn hslot
  refine ⟨i, ⟨_, getElem?_distribute hi, mem_evenRange.2 hmem⟩, ?_⟩
  rintro j ⟨r, hr, hin⟩
  obtain ⟨hj, rfl⟩ := getElem?_distribute_eq_some.1 hr
  obtain ⟨hstart, hend⟩ := mem_evenRange.1 hin
  exact run_unique hstart hend hmem.1 hmem.2

theorem targetCounts_eq (n : Nat) : targetCounts n = (distribute n).map SlotRange.size := rfl

theorem sum_targetCounts (hn : 0 < n) : (targetCounts n).sum = 16384 := by
  rw [targetCounts_eq, distribute, List.map_map]
  exact sum_size_evenRange hn

/-- The split into `n` is an exact and balanced partition of the slots. -/
theorem distribute_partition (n : Nat) (hn : 1 ≤ n) :
    (distribute n).length = n ∧
    (∀ s : Int, 0 ≤ s → s ≤ 16383 →
      ∃! i : ℕ, ∃ r, (distribute n)[i]? = some r ∧ r.start ≤ s ∧ s ≤ r.stop) ∧
    (∀ (i : ℕ) r r', (distribute n)[i]? = some r → (distribute n)[i + 1]? = some r' →
      r'.start = r.stop + 1) ∧
    (∀ r ∈ distribute n, r.size = (16384 / n : ℕ) ∨ r.size = (16384 ⌈/⌉ n : ℕ)) ∧
    (n ≤ 16384 → ∀ r ∈ distribute n, r.start ≤ r.stop) ∧
    targetCounts n = (distribute n).map SlotRange.size ∧
    (targetCounts n).sum = 16384 := by
  refine ⟨length_distribute n, fun s hs hs' => existsUnique_distribute hn hs hs', ?_, ?_, ?_,
    targetCounts_eq n, sum_targetCounts hn⟩
  · intro i r r' hr hr'
    obtain ⟨-, rfl⟩ := getElem?_distribute_eq_some.1 hr
    obtain ⟨-, rfl⟩ := getElem?_distribute_eq_some.1 hr'
    rw [start_evenRange, stop_evenRange]
    omega
  · intro r hr
    obtain ⟨i, -, rfl⟩ := mem_distribute.1 hr
    rw [size_evenRange]
    exact (runLength_floor_or_ceil hn i).imp (congrArg Nat.cast) (congrArg Nat.cast)
  · intro hle r hr
    obtain ⟨i, -, rfl⟩ := mem_distribute.1 hr
    have hsize := size_evenRange n i
    have hpos := runLength_pos hn hle i
    rw [SlotRange.size] at hsize
    omega

/-- More shards than two, and not a divisor: the parts are not all of one size. -/
theorem distribute_partition_three :
    1 ≤ 3 ∧ (∀ r ∈ distribute 3, r.size = 5461 ∨ r.size = 5462) ∧ (targetCounts 3).sum = 16384 :=
  have h := distribute_partition 3 (by decide)
  ⟨by decide, h.2.2.2.1, h.2.2.2.2.2.2⟩

end

/-! ## Reading back what is written -/

/-- The parts of a list of ranges; the empty text is the empty list. -/
def rangeTokens (s : String) : List String := if s = "" then [] else split ',' s

/-- A range that `%d` prints without a sign. -/
def Unsigned (r : SlotRange) : Prop := 0 ≤ r.start ∧ 0 ≤ r.stop

section

variable {r : SlotRange} {ranges : List SlotRange}

theorem dash_not_mem {k : Int} (hk : 0 ≤ k) : '-' ∉ (toString k).toList := by
  obtain ⟨m, rfl⟩ := Int.eq_ofNat_of_zero_le hk
  exact not_mem_toString (n := m) (by decide)

/-- The two numbers of a range stand on both sides of its dash, or are the same text. -/
theorem ends_formatRange (hr : Unsigned r) :
    (cut '-' (formatRange r)).getD (formatRange r, formatRange r) =
      (toString r.start, toString r.stop) := by
  have hdash := dash_not_mem hr.1
  unfold formatRange
  split
  · next heq => rw [cut_eq_none hdash, Option.getD_none, ← heq]
  · have hcut : cut '-' (toString r.start ++ "-" ++ toString r.stop) =
        some (toString r.start, toString r.stop) := cut_append hdash
    rw [hcut, Option.getD_some]

theorem parseSlotToken_eq_some {tok : String} {s e : Int} :
    parseSlotToken tok = some (s, e) ↔
      atoi ((cut '-' tok).getD (tok, tok)).1 = some s ∧
        atoi ((cut '-' tok).getD (tok, tok)).2 = some e := by
  unfold parseSlotToken
  split
  · next lo hi hcut =>
      rw [hcut, Option.getD_some]
      split <;> simp_all
  · next hcut =>
      rw [hcut, Option.getD_none, Option.map_eq_some_iff]
      simp only [Prod.mk.injEq]
      constructor
      · rintro ⟨n, hn, rfl, rfl⟩
        exact ⟨hn, hn⟩
      · rintro ⟨hs, he⟩
        exact ⟨s, hs, rfl, Option.some.inj (hs.symm.trans he)⟩

/-- A range is read back exactly when its ends fit an `int`. -/
theorem parseSlotToken_formatRange_iff (hr : Unsigned r) :
    parseSlotToken (formatRange r) = some (r.start, r.stop) ↔
      r.start ≤ maxInt ∧ r.stop ≤ maxInt := by
  rw [parseSlotToken_eq_some, ends_formatRange hr, atoi_toString_iff hr.1, atoi_toString_iff hr.2]

theorem comma_not_mem_formatRange (r : SlotRange) : ',' ∉ (formatRange r).toList := by
  have hnum : ∀ k : Int, ',' ∉ (toString k).toList := fun k =>
    not_mem_toString_int (by decide) (by decide)
  unfold formatRange
  split
  · exact hnum r.start
  · rw [String.toList_append, String.toList_append]
    exact List.not_mem_append (List.not_mem_append (hnum r.start) (by decide)) (hnum r.stop)

theorem formatRange_ne_empty (hr : Unsigned r) : formatRange r ≠ "" := by
  intro hempty
  have hends := ends_formatRange hr
  rw [hempty] at hends
  obtain ⟨m, hm⟩ := Int.eq_ofNat_of_zero_le hr.1
  rw [hm] at hends
  exact toString_ne_nil m (congrArg String.toList (congrArg Prod.fst hends)).symm

theorem rangeTokens_formatRanges (hranges : ∀ r ∈ ranges, Unsigned r) :
    rangeTokens (formatRanges ranges) = ranges.map formatRange := by
  cases ranges with
  | nil => rfl
  | cons r rest =>
      have hcommas : ∀ s ∈ (r :: rest).map formatRange, ',' ∉ s.toList := by
        intro s hs
        obtain ⟨x, -, rfl⟩ := List.mem_map.1 hs
        exact comma_not_mem_formatRange x
      have hsplit : split ',' (",".intercalate ((r :: rest).map formatRange)) =
          (r :: rest).map formatRange := split_intercalate rfl hcommas (by simp)
      have hne : ",".intercalate ((r :: rest).map formatRange) ≠ "" := by
        intro hempty
        rw [hempty] at hsplit
        exact formatRange_ne_empty (hranges r (by simp)) (List.cons.inj hsplit).1.symm
      rw [formatRanges, if_neg (by simp), rangeTokens, if_neg hne, hsplit]

theorem mapM_formatRange_iff (hranges : ∀ r ∈ ranges, Unsigned r) :
    (ranges.map formatRange).mapM parseSlotToken = some (ranges.map fun r => (r.start, r.stop)) ↔
      ∀ r ∈ ranges, r.start ≤ maxInt ∧ r.stop ≤ maxInt := by
  induction ranges with
  | nil => simp
  | cons r rest ih =>
      have hrest := ih fun x hx => hranges x (List.mem_cons_of_mem _ hx)
      rw [List.forall_mem_cons, ← hrest,
        ← parseSlotToken_formatRange_iff (hranges r (List.mem_cons_self ..)), List.map_cons,
        List.mapM_cons, List.map_cons]
      simp only [Option.bind_eq_bind, Option.pure_def, Option.bind_eq_some_iff, Option.some.injEq,
        List.cons.injEq]
      constructor
      · rintro ⟨x, hx, xs, hxs, rfl, rfl⟩
        exact ⟨hx, hxs⟩
      · rintro ⟨hx, hxs⟩
        exact ⟨_, hx, _, hxs, rfl, rfl⟩

/-- The texts of the ends tell ranges apart, whether or not the numbers fit. -/
theorem formatRanges_injOn {ranges' : List SlotRange} (hranges : ∀ r ∈ ranges, Unsigned r)
    (hranges' : ∀ r ∈ ranges', Unsigned r) (htext : formatRanges ranges = formatRanges ranges') :
    ranges = ranges' := by
  have hends : ∀ {l : List SlotRange}, (∀ r ∈ l, Unsigned r) →
      (rangeTokens (formatRanges l)).map (fun tok => (cut '-' tok).getD (tok, tok)) =
        l.map fun r => (toString r.start, toString r.stop) := by
    intro l hl
    rw [rangeTokens_formatRanges hl, List.map_map]
    exact List.map_congr_left fun r hr => ends_formatRange (hl r hr)
  have heq := (hends hranges).symm.trans (htext ▸ hends hranges')
  refine List.map_injective_iff.2 (fun r r' h => ?_) heq
  obtain ⟨hstart, hstop⟩ := Prod.mk.inj h
  cases r
  cases r'
  rw [SlotRange.mk.injEq]
  exact ⟨toString_int_injective hstart, toString_int_injective hstop⟩

/-- A list of ranges is read back as it was written, since their ends are `int`s: only a number
that fits none would be lost. No two lists are written alike. -/
theorem formatRanges_roundTrip (ranges ranges' : List SlotRange)
    (hranges : ∀ r ∈ ranges, 0 ≤ r.start ∧ 0 ≤ r.stop)
    (hranges' : ∀ r ∈ ranges', 0 ≤ r.start ∧ 0 ≤ r.stop) :
    ((rangeTokens (formatRanges ranges)).mapM parseSlotToken =
      some (ranges.map fun r => (r.start, r.stop)) ↔
      ∀ r ∈ ranges, r.start ≤ maxInt ∧ r.stop ≤ maxInt) ∧
    (formatRanges ranges = formatRanges ranges' → ranges = ranges') := by
  rw [rangeTokens_formatRanges hranges]
  exact ⟨mapM_formatRange_iff hranges, formatRanges_injOn hranges hranges'⟩

/-- A single slot and a range. -/
theorem formatRanges_roundTrip_mixed :
    formatRanges [⟨7, 7⟩, ⟨0, 5460⟩] ≠ formatRanges [⟨0, 5460⟩, ⟨7, 7⟩] ∧
    (rangeTokens (formatRanges [⟨7, 7⟩, ⟨0, 5460⟩])).mapM parseSlotToken =
      some [(7, 7), (0, 5460)] :=
  have h := formatRanges_roundTrip [⟨7, 7⟩, ⟨0, 5460⟩] [⟨0, 5460⟩, ⟨7, 7⟩] (by decide) (by decide)
  ⟨fun htext => absurd (h.2 htext) (by decide), h.1.2 (by decide)⟩

end

end Valkeyop.Slots
