import Nnxt.Foundation.ZeroPadding
import Nnxt.StrategyRunner

/-!
# Instrument ids as text

`InstrumentId::from_str` copies the bytes of a text into a zeroed array and checks
nothing but their number; `as_str` reads them back up to the first zero byte. A
text with a NUL character in it is therefore cut short, and two texts that differ
in trailing NUL characters only become one instrument.
-/

namespace Nnxt

set_option autoImplicit false

def InstrumentId.len : Nat := 64

inductive InstrumentIdError where
  | tooLong (length : Nat)
  deriving DecidableEq, Repr

structure Utf8Error where
  validUpTo : Nat
  deriving DecidableEq, Repr

/-- The length of the longest prefix that is valid UTF-8. -/
def validUpTo (bytes : List UInt8) : Nat :=
  ((List.range (bytes.length + 1)).filter fun k =>
    (bytes.take k).toByteArray.IsValidUTF8).getLast?.getD 0

/-- `core::str::from_utf8` -/
def fromUtf8 (bytes : List UInt8) : Except Utf8Error String :=
  match String.fromUTF8? bytes.toByteArray with
  | some value => .ok value
  | none => .error ⟨validUpTo bytes⟩

def asBytes (value : String) : List UInt8 := value.toByteArray.data.toList

namespace InstrumentId

def asStr (id : InstrumentId) : Except Utf8Error String :=
  let stop := (id.bytes.toList.findIdx? (· = 0)).getD len
  fromUtf8 (id.bytes.toList.take stop)

/-- `copy_from_slice` into the front of an array of zeros. -/
def fromStr (value : String) : Except InstrumentIdError InstrumentId :=
  if len < (asBytes value).length then .error (.tooLong (asBytes value).length)
  else .ok ⟨ZeroPadding.pad 64 0 (asBytes value)⟩

end InstrumentId

namespace InstrumentIds

open ZeroPadding

def nul : Char := Char.ofNat 0

/-- The text up to its first NUL character. -/
def upToNul (value : String) : String := String.ofList (value.toList.takeWhile (· ≠ nul))

def withoutTrailingNuls (value : String) : List Char := value.toList.rdropWhile (· = nul)

/-- The instruments share nothing: neither a trade nor an order book of the one
reaches the position, the market view or the subscription of the other. -/
structure Apart (id id' : InstrumentId) : Prop where
  position : ∀ (ledger : Ledger) (event : TradeEvent), event.instrumentId = id →
    (ledger.applyTradeEvent event).1.position id' = ledger.position id'
  marketView : ∀ (state : RunnerState) (book : OrderBook), book.instrumentId = id →
    (state.updateMarket book).marketView id' = state.marketView id'
  subscription : ∀ (runner : StrategyRunner) (book : OrderBook) (nowNs : UInt64)
    (calls : List ContextCall) (ctx : ActorContext), book.instrumentId = id →
    runner.onOrderBook book id' nowNs calls ctx = (runner, ctx)

section Bytes
variable {c : Char} {chars : List Char} {value value' : String}

theorem ofNat_ne_zero {k : Nat} (hpos : 0 < k) (hlt : k < 256) : UInt8.ofNat k ≠ 0 := by
  intro h
  have hnat := congrArg UInt8.toNat h
  rw [UInt8.toNat_ofNat'] at hnat
  have hzero : (0 : UInt8).toNat = 0 := rfl
  omega

theorem utf8EncodeChar_nul : String.utf8EncodeChar nul = [0] := by decide

/-- A zero byte is the encoding of the NUL character and part of no other: the
bytes of a longer encoding are all 0x80 or more. -/
theorem zero_notMem_utf8EncodeChar (hc : c ≠ nul) : (0 : UInt8) ∉ String.utf8EncodeChar c := by
  have hval : c.val.toNat ≠ 0 := by
    intro h
    apply hc
    apply Char.ext
    apply UInt32.toNat_inj.mp
    rw [h]
    rfl
  intro h
  unfold String.utf8EncodeChar at h
  dsimp only at h
  split at h
  · rw [List.mem_singleton] at h
    exact ofNat_ne_zero (by omega) (by omega) h.symm
  split at h
  · simp only [List.mem_cons, List.not_mem_nil, or_false] at h
    rcases h with h | h
    all_goals exact ofNat_ne_zero (by omega) (by omega) h.symm
  split at h
  · simp only [List.mem_cons, List.not_mem_nil, or_false] at h
    rcases h with h | h | h
    all_goals exact ofNat_ne_zero (by omega) (by omega) h.symm
  · simp only [List.mem_cons, List.not_mem_nil, or_false] at h
    rcases h with h | h | h | h
    all_goals exact ofNat_ne_zero (by omega) (by omega) h.symm

theorem asBytes_eq (value : String) :
    asBytes value = value.toList.flatMap String.utf8EncodeChar := by
  rw [asBytes, ← String.utf8Encode_toList]
  simp [List.utf8Encode]

theorem toByteArray_asBytes (value : String) :
    (asBytes value).toByteArray = value.toByteArray := by
  apply ByteArray.ext
  simp [asBytes]

theorem asBytes_inj : asBytes value = asBytes value' ↔ value = value' := by
  rw [← String.toByteArray_inj, ← toByteArray_asBytes value, ← toByteArray_asBytes value']
  constructor
  · exact fun h => by rw [h]
  · intro h
    simpa using congrArg (fun bytes => bytes.data.toList) h

theorem takeWhile_flatMap (chars : List Char) :
    (chars.flatMap String.utf8EncodeChar).takeWhile (· ≠ 0) =
      (chars.takeWhile (· ≠ nul)).flatMap String.utf8EncodeChar := by
  induction chars with
  | nil => rfl
  | cons c chars ih =>
    rw [List.flatMap_cons]
    by_cases hc : c = nul
    · rw [hc, utf8EncodeChar_nul]
      simp
    · have hall : ∀ byte ∈ String.utf8EncodeChar c, decide (byte ≠ 0) = true := by
        intro byte hbyte
        have hne : byte ≠ 0 := fun h => zero_notMem_utf8EncodeChar hc (h ▸ hbyte)
        simpa using hne
      rw [List.takeWhile_append_of_pos hall, ih, List.takeWhile_cons_of_pos (by simpa using hc),
        List.flatMap_cons]

/-- Trailing zero bytes come from trailing NUL characters. -/
theorem rdropWhile_flatMap (chars : List Char) :
    (chars.flatMap String.utf8EncodeChar).rdropWhile (· = 0) =
      (chars.rdropWhile (· = nul)).flatMap String.utf8EncodeChar := by
  induction chars using List.reverseRecOn with
  | nil => rfl
  | append_singleton chars c ih =>
    rw [List.flatMap_append, List.flatMap_singleton]
    by_cases hc : c = nul
    · rw [hc, utf8EncodeChar_nul, List.rdropWhile_concat_pos _ _ _ (by simp),
        List.rdropWhile_concat_pos _ _ _ (by simp), ih]
    · have hlast : ∀ hne, ¬ decide ((chars.flatMap String.utf8EncodeChar ++
          String.utf8EncodeChar c).getLast hne = 0) = true := by
        intro hne
        rw [List.getLast_append_of_ne_nil _ String.utf8EncodeChar_ne_nil, decide_eq_true_eq]
        intro hzero
        exact zero_notMem_utf8EncodeChar hc (hzero ▸ List.getLast_mem _)
      rw [List.rdropWhile_eq_self_iff.mpr hlast,
        List.rdropWhile_concat_neg _ _ _ (by simpa using hc), List.flatMap_append,
        List.flatMap_singleton]

theorem flatMap_utf8EncodeChar_inj {chars' : List Char} :
    chars.flatMap String.utf8EncodeChar = chars'.flatMap String.utf8EncodeChar ↔
      chars = chars' := by
  constructor
  · intro h
    have hbytes : asBytes (String.ofList chars) = asBytes (String.ofList chars') := by
      rw [asBytes_eq, asBytes_eq, String.toList_ofList, String.toList_ofList, h]
    exact String.ofList_inj.mp (asBytes_inj.mp hbytes)
  · exact fun h => by rw [h]

end Bytes

section RoundTrip
variable {value value' : String} {id id' : InstrumentId}

theorem bytes_inj : id.bytes = id'.bytes ↔ id = id' := by
  cases id
  cases id'
  rw [InstrumentId.mk.injEq]

theorem fromStr_eq_ok_iff :
    InstrumentId.fromStr value = .ok id ↔
      (asBytes value).length ≤ 64 ∧ id.bytes = pad 64 0 (asBytes value) := by
  unfold InstrumentId.fromStr InstrumentId.len
  split
  · rename_i hlong
    constructor
    · intro h
      cases h
    · intro h
      omega
  · rename_i hfits
    rw [Except.ok.injEq]
    constructor
    · intro h
      exact ⟨Nat.le_of_not_lt hfits, congrArg InstrumentId.bytes h.symm⟩
    · intro h
      exact bytes_inj.mp h.2.symm

theorem fromUtf8_asBytes (value : String) : fromUtf8 (asBytes value) = .ok value := by
  have hdecoded : String.fromUTF8? (asBytes value).toByteArray = some value := by
    rw [toByteArray_asBytes, String.fromUTF8?, dif_pos value.isValidUTF8]
    rfl
  rw [fromUtf8, hdecoded]

theorem eq_of_fromUtf8 {bytes : List UInt8} (h : fromUtf8 bytes = .ok value) :
    bytes = asBytes value := by
  unfold fromUtf8 String.fromUTF8? at h
  by_cases hvalid : bytes.toByteArray.IsValidUTF8
  · rw [dif_pos hvalid] at h
    cases h
    simp [asBytes, String.fromUTF8]
  · rw [dif_neg hvalid] at h
    cases h

/-- The decoder reads what stands before the first zero byte. -/
theorem asStr_eq (id : InstrumentId) : id.asStr = fromUtf8 (content 0 id.bytes) := by
  have hstop : id.bytes.toList.take ((id.bytes.toList.findIdx? (· = 0)).getD InstrumentId.len) =
      content 0 id.bytes :=
    take_findIdx_eq_content id.bytes
  rw [InstrumentId.asStr, hstop]

/-- What is read back of an accepted text ends at its first NUL character. -/
theorem asStr_of_fromStr (h : InstrumentId.fromStr value = .ok id) :
    id.asStr = .ok (upToNul value) := by
  obtain ⟨hfits, hbytes⟩ := fromStr_eq_ok_iff.mp h
  have hbefore : content 0 id.bytes = asBytes (upToNul value) := by
    rw [hbytes, content_pad hfits, asBytes_eq, asBytes_eq, takeWhile_flatMap, upToNul,
      String.toList_ofList]
  rw [asStr_eq, hbefore, fromUtf8_asBytes]

theorem upToNul_eq_self_iff : upToNul value = value ↔ nul ∉ value.toList := by
  rw [← takeWhile_ne_eq_self_iff, ← String.toList_inj, upToNul, String.toList_ofList]

theorem eq_iff_withoutTrailingNuls (h : InstrumentId.fromStr value = .ok id)
    (h' : InstrumentId.fromStr value' = .ok id') :
    id = id' ↔ withoutTrailingNuls value = withoutTrailingNuls value' := by
  obtain ⟨hfits, hbytes⟩ := fromStr_eq_ok_iff.mp h
  obtain ⟨hfits', hbytes'⟩ := fromStr_eq_ok_iff.mp h'
  rw [← bytes_inj, hbytes, hbytes', pad_inj_iff hfits hfits', asBytes_eq, asBytes_eq, rdropWhile_flatMap,
    rdropWhile_flatMap, flatMap_utf8EncodeChar_inj]
  rfl

theorem fromStr_asStr (hpadded : Padded 0 id.bytes) (h : id.asStr = .ok value) :
    InstrumentId.fromStr value = .ok id := by
  rw [asStr_eq] at h
  have hcontent := eq_of_fromUtf8 h
  apply fromStr_eq_ok_iff.mpr
  rw [← hcontent]
  exact ⟨length_content_le id.bytes, (pad_content hpadded).symm⟩

end RoundTrip

section Sharing
variable {id id' : InstrumentId}

theorem find_set_of_ne {books : List OrderBook} {index : Nat} {entry book : OrderBook}
    (hentry : books[index]? = some entry) (hold : entry.instrumentId ≠ id')
    (hnew : book.instrumentId ≠ id') :
    (books.set index book).find? (fun book => decide (book.instrumentId = id')) =
      books.find? fun book => decide (book.instrumentId = id') := by
  induction books generalizing index with
  | nil => rfl
  | cons first books ih =>
    cases index with
    | zero =>
      have hfirst : first = entry := by simpa using hentry
      rw [List.set_cons_zero, List.find?_cons_of_neg (by simpa using hnew),
        List.find?_cons_of_neg (by simpa [hfirst] using hold)]
    | succ index =>
      rw [List.set_cons_succ, List.find?_cons, List.find?_cons, ih (by simpa using hentry)]

theorem marketView_updateMarket_ne (state : RunnerState) {book : OrderBook}
    (hne : book.instrumentId ≠ id') :
    (state.updateMarket book).marketView id' = state.marketView id' := by
  unfold RunnerState.updateMarket
  split
  · rename_i index hfound
    obtain ⟨hlt, hentry, _⟩ := List.findIdx?_eq_some_iff_getElem.mp hfound
    rw [decide_eq_true_eq] at hentry
    exact find_set_of_ne (List.getElem?_eq_getElem hlt) (hentry ▸ hne) hne
  · rw [RunnerState.marketView, RunnerState.marketView, List.find?_append,
      List.find?_singleton, if_neg (by simpa using hne), Option.or_none]

/-- Different ids are apart; one id is not apart from itself, as its first trade shows. -/
theorem apart_iff : Apart id id' ↔ id ≠ id' := by
  constructor
  · intro h he
    subst he
    let trade : TradeEvent := ⟨id, 0, 0, .buy, 0, 0, 0⟩
    have hsame := h.position Ledger.new trade rfl
    have hnew : trade.tradeId ∉ Ledger.new.fillLedger.seen := Finset.notMem_empty _
    rw [Ledger.applyTradeEvent_of_new _ hnew, Ledger.position, AList.lookup_insert] at hsame
    cases hsame
  · intro hne
    refine ⟨?_, ?_, ?_⟩
    · intro ledger event hevent
      exact ledger.position_applyTradeEvent_ne event (hevent ▸ hne.symm)
    · intro state book hbook
      exact marketView_updateMarket_ne state (hbook ▸ hne)
    · intro runner book nowNs calls ctx hbook
      rw [StrategyRunner.onOrderBook, if_pos (hbook ▸ hne)]

end Sharing

section Law

theorem accepted_iff (value : String) :
    (∃ id, InstrumentId.fromStr value = .ok id) ↔ (asBytes value).length ≤ InstrumentId.len := by
  constructor
  · intro h
    obtain ⟨id, hid⟩ := h
    exact (fromStr_eq_ok_iff.mp hid).1
  · intro h
    exact ⟨⟨pad 64 0 (asBytes value)⟩, fromStr_eq_ok_iff.mpr ⟨h, rfl⟩⟩

/-- An accepted text is read back iff it has no NUL character, two of them are one
instrument iff they differ in trailing NUL characters only, and a zero-padded array
of valid UTF-8 is written as it was read. -/
theorem round_trip_iff_no_nul (value value' : String) (x : InstrumentId) :
    ((∃ id, InstrumentId.fromStr value = .ok id) ↔
      (asBytes value).length ≤ InstrumentId.len) ∧
    (∀ id, InstrumentId.fromStr value = .ok id →
      (id.asStr = .ok value ↔ nul ∉ value.toList)) ∧
    (∀ id id', InstrumentId.fromStr value = .ok id → InstrumentId.fromStr value' = .ok id' →
      (Apart id id' ↔ withoutTrailingNuls value ≠ withoutTrailingNuls value')) ∧
    (Padded 0 x.bytes → (content 0 x.bytes).toByteArray.IsValidUTF8 →
      ∃ text, x.asStr = .ok text ∧ InstrumentId.fromStr text = .ok x) := by
  refine ⟨accepted_iff value, ?_, ?_, ?_⟩
  · intro id h
    rw [asStr_of_fromStr h, Except.ok.injEq, upToNul_eq_self_iff]
  · intro id id' h h'
    rw [apart_iff, Ne, eq_iff_withoutTrailingNuls h h']
  · intro hpadded hvalid
    have hread : x.asStr = .ok (String.fromUTF8 (content 0 x.bytes).toByteArray hvalid) := by
      rw [asStr_eq, fromUtf8, String.fromUTF8?, dif_pos hvalid]
    exact ⟨_, hread, fromStr_asStr hpadded hread⟩

/-- The letter `A` with a NUL character behind it is accepted, is read back as the
bare letter and is the same instrument. -/
theorem trailing_nul_is_lost :
    ∃ id, InstrumentId.fromStr (String.ofList ['A', nul]) = .ok id ∧
      id.asStr ≠ .ok (String.ofList ['A', nul]) ∧ id.asStr = .ok "A" ∧
      InstrumentId.fromStr "A" = .ok id ∧ ¬ Apart id id := by
  have hbytes : asBytes (String.ofList ['A', nul]) = [65, 0] := by
    rw [asBytes_eq, String.toList_ofList]
    decide
  have hshort : asBytes "A" = [65] := by
    rw [asBytes_eq]
    decide
  have hid : InstrumentId.fromStr (String.ofList ['A', nul]) = .ok ⟨pad 64 0 [65, 0]⟩ :=
    fromStr_eq_ok_iff.mpr ⟨by rw [hbytes]; decide, by rw [hbytes]⟩
  have hread : InstrumentId.asStr ⟨pad 64 0 [65, 0]⟩ = .ok "A" := by
    rw [asStr_of_fromStr hid, upToNul, String.toList_ofList]
    decide
  refine ⟨_, hid, ?_, hread, ?_, fun h => apart_iff.mp h rfl⟩
  · rw [hread, Ne, Except.ok.injEq]
    decide
  · apply fromStr_eq_ok_iff.mpr
    rw [hshort]
    exact ⟨by decide, by decide⟩

end Law

end InstrumentIds

end Nnxt
