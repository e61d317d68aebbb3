import Nnxt.MemoryLayout
import Nnxt.SegmentNames

/-!
# When the layout of a segment is sound

`layout_for` adds the header to the reader slots, and rounds up, without a check.
The offsets are right for exactly the parameters for which neither wraps, and
for those that one of the three checks refuses in any case.
-/

namespace Nnxt.MemoryLayout

set_option autoImplicit false

open FixedWidth Alignment

/-- The header, the reader slots and the data slots follow one another, aligned,
and end where the segment ends. -/
structure Sound (T : ElementLayout) (capacity maxReaders : UInt64) (layout : Layout) : Prop where
  noOverflow : checkedLayout T capacity maxReaders = some layout
  disjoint : (regions T capacity maxReaders layout).Pairwise Before
  readersAligned : ∀ e ∈ readerSlots layout maxReaders, atomicSize.toNat ∣ e.offset
  dataAligned : ∀ e ∈ dataSlots T layout capacity, T.align.toNat ∣ e.offset
  within : ∀ e ∈ regions T capacity maxReaders layout, e.stop ≤ layout.totalSize.toNat
  ends : ∃ e ∈ dataSlots T layout capacity, e.stop = layout.totalSize.toNat

/-- An error, or a sound layout; and a mapping that `connect` takes holds every slot. -/
structure LaidOut (T : ElementLayout) (capacity maxReaders : UInt64) : Prop where
  sound : ∀ layout, layoutFor T capacity maxReaders = .ok layout →
    Sound T capacity maxReaders layout
  mapped : ∀ header mapLen layout, header.capacity = capacity → header.maxReaders = maxReaders →
    connectLayout T header mapLen = .ok layout →
    ∀ e ∈ regions T capacity maxReaders layout, e.stop ≤ mapLen.toNat

/-- The sum of the header and the reader slots can be rounded up within the word,
or one of the checks fails: those of the two products, or that of the total,
taken where the wrapped sum puts the data. -/
def Accommodated (T : ElementLayout) (capacity maxReaders : UInt64) : Prop :=
  64 + 8 * maxReaders.toNat + T.align.toNat < 2 ^ 64 ∨
  capacity = 0 ∨
  2 ^ 64 ≤ 8 * maxReaders.toNat ∨
  2 ^ 64 ≤ T.size.toNat * capacity.toNat ∨
  2 ^ 64 ≤ roundUp ((64 + 8 * maxReaders.toNat) % 2 ^ 64) T.align.toNat % 2 ^ 64 +
    T.size.toNat * capacity.toNat

variable {T : ElementLayout} {capacity maxReaders : UInt64} {layout : Layout}

/-- Without overflow the wrapping and the checked arithmetic agree. -/
theorem checkedLayout_of_fits (hfits : 64 + 8 * maxReaders.toNat + T.align.toNat < 2 ^ 64)
    (h : layoutFor T capacity maxReaders = .ok layout) :
    checkedLayout T capacity maxReaders = some layout := by
  obtain ⟨_, _, hdata, hreadersOffset, hdataOffset, htotal⟩ := layoutFor_eq_ok_iff.mp h
  have hround := @roundUp_lt (64 + 8 * maxReaders.toNat) T.align.toNat (align_pos T)
  have hsum : 64 + 8 * maxReaders.toNat < 2 ^ 64 := by omega
  rw [Nat.mod_eq_of_lt hsum, Nat.mod_eq_of_lt (hround.trans hfits)] at hdataOffset
  exact checkedLayout_eq_some_iff.mpr ⟨hfits, hdata, hreadersOffset, hdataOffset, htotal⟩

/-- Where neither sum wraps, the unbounded layout behind the segment names is the machine's. -/
theorem layoutFor_names (hfits : 64 + 8 * maxReaders.toNat + T.align.toNat < 2 ^ 64) :
    layoutFor T capacity maxReaders = .ok layout ↔
      SegmentNames.layoutFor ⟨T.size.toNat, T.align.toNat, align_pos T⟩ capacity.toNat
        maxReaders.toNat =
          .ok ⟨layout.readersOffset.toNat, layout.dataOffset.toNat, layout.totalSize.toNat⟩ := by
  have hround := @roundUp_lt (64 + 8 * maxReaders.toNat) T.align.toNat (align_pos T)
  have hsum : 64 + 8 * maxReaders.toNat < 2 ^ 64 := by omega
  have hreaders : ¬ 2 ^ 64 ≤ 8 * maxReaders.toNat := by omega
  have hnames : SegmentNames.alignUp 64 8 = 64 := by decide
  have hstart : SegmentNames.alignUp (64 + 8 * maxReaders.toNat) T.align.toNat =
      roundUp (64 + 8 * maxReaders.toNat) T.align.toNat := rfl
  have htotal := layout.totalSize.toNat_lt
  rw [layoutFor_eq_ok_iff, Nat.mod_eq_of_lt hsum, Nat.mod_eq_of_lt (hround.trans hfits)]
  unfold SegmentNames.layoutFor
  simp only [hnames, hstart, if_neg hreaders]
  by_cases hcapacity : capacity.toNat = 0
  · rw [if_pos hcapacity]
    exact iff_of_false (fun h => h.1 (UInt64.toNat_inj.mp hcapacity)) fun h => by cases h
  rw [if_neg hcapacity]
  by_cases hdata : 2 ^ 64 ≤ T.size.toNat * capacity.toNat
  · rw [if_pos hdata]
    exact iff_of_false (fun h => by omega) fun h => by cases h
  rw [if_neg hdata]
  by_cases hend : 2 ^ 64 ≤
      roundUp (64 + 8 * maxReaders.toNat) T.align.toNat + T.size.toNat * capacity.toNat
  · rw [if_pos hend]
    exact iff_of_false (fun h => by omega) fun h => by cases h
  rw [if_neg hend, Except.ok.injEq, SegmentNames.Layout.mk.injEq]
  constructor
  · rintro ⟨_, _, _, hreadersOffset, hdataOffset, htotalSize⟩
    rw [hreadersOffset, htotalSize, hdataOffset]
    exact ⟨rfl, rfl, rfl⟩
  · rintro ⟨hreadersOffset, hdataOffset, htotalSize⟩
    refine ⟨fun hzero => hcapacity (hzero ▸ rfl), by omega, by omega, ?_, hdataOffset.symm, ?_⟩
    · exact UInt64.toNat_inj.mp hreadersOffset.symm
    · rw [← htotalSize, hdataOffset]

theorem capacity_pos (h : layoutFor T capacity maxReaders = .ok layout) : 0 < capacity.toNat := by
  apply Nat.pos_of_ne_zero
  intro hzero
  exact (layoutFor_eq_ok_iff.mp h).1 (UInt64.toNat_inj.mp hzero)

/-- The reader slots lie between the header and the data. -/
theorem readerSlots_between (h : checkedLayout T capacity maxReaders = some layout) :
    ∀ e ∈ readerSlots layout maxReaders, 64 ≤ e.offset ∧ e.stop ≤ layout.dataOffset.toNat := by
  obtain ⟨_, _, hreadersOffset, hdataOffset, _⟩ := checkedLayout_eq_some_iff.mp h
  have hround := @le_roundUp (64 + 8 * maxReaders.toNat) T.align.toNat (align_pos T)
  intro e he
  have hwithin := within_of_mem_slots he
  rw [hreadersOffset] at hwithin
  exact ⟨hwithin.1, hwithin.2.trans (hdataOffset ▸ hround)⟩

/-- The data slots lie between their offset and the end of the segment. -/
theorem dataSlots_between (h : checkedLayout T capacity maxReaders = some layout) :
    ∀ e ∈ dataSlots T layout capacity,
      layout.dataOffset.toNat ≤ e.offset ∧ e.stop ≤ layout.totalSize.toNat := by
  intro e he
  rw [(checkedLayout_eq_some_iff.mp h).2.2.2.2]
  exact within_of_mem_slots he

theorem pairwise_regions (h : checkedLayout T capacity maxReaders = some layout) :
    (regions T capacity maxReaders layout).Pairwise Before := by
  have hreaders := readerSlots_between h
  have hdata := dataSlots_between h
  have hround := @le_roundUp (64 + 8 * maxReaders.toNat) T.align.toNat (align_pos T)
  have hdataOffset := (checkedLayout_eq_some_iff.mp h).2.2.2.1
  apply List.pairwise_cons.mpr
  constructor
  · intro e he
    change 0 + 64 ≤ e.offset
    rcases List.mem_append.mp he with hmem | hmem
    · exact (hreaders e hmem).1
    · have hoffset := (hdata e hmem).1
      omega
  · exact pairwise_append_of_boundary layout.dataOffset.toNat (pairwise_slots _ _ _)
      (pairwise_slots _ _ _) (fun e he => (hreaders e he).2) fun e he => (hdata e he).1

theorem stop_le_totalSize (h : checkedLayout T capacity maxReaders = some layout) :
    ∀ e ∈ regions T capacity maxReaders layout, e.stop ≤ layout.totalSize.toNat := by
  have hround := @le_roundUp (64 + 8 * maxReaders.toNat) T.align.toNat (align_pos T)
  obtain ⟨_, _, _, hdataOffset, htotal⟩ := checkedLayout_eq_some_iff.mp h
  intro e he
  rcases List.mem_cons.mp he with hheader | hmem
  · rw [hheader]
    change 0 + 64 ≤ _
    omega
  · rcases List.mem_append.mp hmem with hmem | hmem
    · have hstop := (readerSlots_between h e hmem).2
      omega
    · exact (dataSlots_between h e hmem).2

/-- The last data slot ends where the segment ends. -/
theorem last_stop_eq (hcapacity : 0 < capacity.toNat)
    (h : checkedLayout T capacity maxReaders = some layout) :
    ∃ e ∈ dataSlots T layout capacity, e.stop = layout.totalSize.toNat := by
  have htotal := (checkedLayout_eq_some_iff.mp h).2.2.2.2
  have hlast : T.size.toNat * capacity.toNat =
      T.size.toNat * (capacity.toNat - 1) + T.size.toNat := by
    rw [← Nat.mul_succ, Nat.succ_eq_add_one, Nat.sub_add_cancel hcapacity]
  refine ⟨_, mem_slots_iff.mpr ⟨capacity.toNat - 1, by omega, rfl⟩, ?_⟩
  unfold Extent.stop
  dsimp only
  omega

theorem sound_of_checkedLayout (hcapacity : 0 < capacity.toNat)
    (h : checkedLayout T capacity maxReaders = some layout) :
    Sound T capacity maxReaders layout := by
  obtain ⟨_, _, hreadersOffset, hdataOffset, _⟩ := checkedLayout_eq_some_iff.mp h
  refine ⟨h, pairwise_regions h, ?_, ?_, stop_le_totalSize h, last_stop_eq hcapacity h⟩
  · intro e he
    apply dvd_offset_of_mem_slots _ (Nat.dvd_refl _) he
    rw [hreadersOffset]
    decide
  · intro e he
    exact dvd_offset_of_mem_slots (hdataOffset ▸ dvd_roundUp _ _) T.align_dvd he

theorem fits_of_accommodated (h : Accommodated T capacity maxReaders)
    (hok : layoutFor T capacity maxReaders = .ok layout) :
    64 + 8 * maxReaders.toNat + T.align.toNat < 2 ^ 64 := by
  obtain ⟨hcapacity, hreaders, hdata, _, hdataOffset, htotal⟩ := layoutFor_eq_ok_iff.mp hok
  have hlt := layout.totalSize.toNat_lt
  rcases h with hfits | hzero | hmany | hlarge | hend
  · exact hfits
  · exact absurd hzero hcapacity
  · omega
  · omega
  · omega

/-- Where the sum wraps and no check fails, the wrapped offsets are returned. -/
theorem accommodated_of_sound
    (h : ∀ layout, layoutFor T capacity maxReaders = .ok layout →
      Sound T capacity maxReaders layout) : Accommodated T capacity maxReaders := by
  by_cases haccommodated : Accommodated T capacity maxReaders
  · exact haccommodated
  unfold Accommodated at haccommodated
  simp only [not_or, Nat.not_le] at haccommodated
  obtain ⟨hwraps, hcapacity, hreaders, hdata, hend⟩ := haccommodated
  have hoffset := UInt64.toNat_ofNat_of_lt' (Nat.lt_of_le_of_lt (Nat.le_add_right _ _) hend)
  have htotal := UInt64.toNat_ofNat_of_lt' hend
  have hok := (@layoutFor_eq_ok_iff T capacity maxReaders ⟨64, _, _⟩).mpr
    ⟨hcapacity, hreaders, hdata, rfl, hoffset, hoffset.symm ▸ htotal⟩
  have hfits := (checkedLayout_eq_some_iff.mp (h _ hok).noOverflow).1
  exact absurd hfits hwraps

/-- For every capacity, number of readers, size and alignment. -/
theorem laidOut_iff_accommodated (T : ElementLayout) (capacity maxReaders : UInt64) :
    LaidOut T capacity maxReaders ↔ Accommodated T capacity maxReaders := by
  constructor
  · intro h
    exact accommodated_of_sound h.sound
  · intro h
    have hsound : ∀ layout, layoutFor T capacity maxReaders = .ok layout →
        Sound T capacity maxReaders layout := by
      intro layout hok
      exact sound_of_checkedLayout (capacity_pos hok)
        (checkedLayout_of_fits (fits_of_accommodated h hok) hok)
    refine ⟨hsound, ?_⟩
    intro header mapLen layout hcapacity hreaders hconnect e he
    subst hcapacity hreaders
    obtain ⟨_, _, hok, hmapped⟩ := connectLayout_eq_ok_iff.mp hconnect
    exact ((hsound layout hok).within e he).trans (UInt64.le_iff_toNat_le.mp hmapped)

def word : ElementLayout := ⟨8, 8, word_align_pow, Nat.dvd_refl _⟩

/-- So many readers that the header and their slots fill the word exactly: the data
slot is put over the header, and eight bytes are enough for the mapping. -/
theorem readers_wrap_the_layout :
    layoutFor word 1 2305843009213693944 = .ok ⟨64, 0, 8⟩ ∧
      ¬ LaidOut word 1 2305843009213693944 := by
  have hok : layoutFor word 1 2305843009213693944 = .ok ⟨64, 0, 8⟩ :=
    layoutFor_eq_ok_iff.mpr (by decide)
  refine ⟨hok, ?_⟩
  intro h
  have hfits := (checkedLayout_eq_some_iff.mp (h.sound _ hok).noOverflow).1
  revert hfits
  decide

end Nnxt.MemoryLayout
