import Orrp.Lib.LittleEndian

/-!
# The binary log (`core/bin_log.c`)

`bin_log_append` writes a record as a header of two `uint32_t`, its length and the CRC-32 of its
bytes, then the bytes; the file is the records one after the other.  `bin_log_scan` reads a header
while `fread` finds eight bytes, then the payload, checks the CRC and hands the payload to the
callback.  A crash is the file cut at a byte offset `p`.

* `binLogScanLoop_frame` — the scan of a whole record delivers it and goes on after it;
* `binLogScan_binLogFile_take` — the scan of a log of appended records cut at any `p` delivers the
  records the cut keeps whole, in order, and reports a cut inside a payload as torn; a cut inside
  a header ends the `while` loop and reads as a clean end;
* `binLogScan_take_within`, `binLogScan_take_of_length_le` — the same for a cut written as an offset
  into one record, or at or after the end of the log;
* `binLogScan_crc_mismatch` — a record whose stored CRC does not match stops the scan with
  `BL_SCAN_ERR_CRC`, after the records before it.
-/

namespace Orrp.Core

open Orrp.Lib

/-- One turn of the inner loop of `_crc32`. -/
def crc32BitStep (crc : UInt32) : UInt32 := (crc >>> 1) ^^^ (0xEDB88320 &&& (-(crc &&& 1)))

/-- One byte of `_crc32`. -/
def crc32Byte (crc : UInt32) (b : UInt8) : UInt32 := Nat.iterate crc32BitStep 8 (crc ^^^ b.toUInt32)

/-- `_crc32`. -/
def crc32 (data : List UInt8) : UInt32 := ~~~(data.foldl crc32Byte 0xFFFFFFFF)

/-- A record `bin_log_append` takes: `len` bytes, `len` a `uint32_t`. -/
structure LogRecord where
  data : List UInt8
  len_lt : data.length < 2 ^ 32

/-- The bytes of `uint32_t header[2] = {len, crc}`. -/
def binLogHeader (len crc : ℕ) : List UInt8 := leBytes 4 len ++ leBytes 4 crc

/-- The bytes `bin_log_append` writes for a record. -/
def LogRecord.frame (r : LogRecord) : List UInt8 := binLogHeader r.data.length (crc32 r.data).toNat ++ r.data

/-- `bin_log_append`: the file grows by the record's header and bytes. -/
def binLogAppend (file : List UInt8) (r : LogRecord) : List UInt8 := file ++ r.frame

/-- The log after appending the records `rs` to an empty file. -/
def binLogFile (rs : List LogRecord) : List UInt8 := rs.foldl binLogAppend []

/-- `bin_log_cb_result_t`. -/
inductive BinLogCbResult
  | continue | stop | err
  deriving DecidableEq, Repr

/-- `bin_log_scan_result_t`. -/
inductive BinLogScanResult
  | ok | stopped | noLog | torn | errInvalid | errOom | errCrc | cbErr
  deriving DecidableEq, Repr

variable {σ : Type*}

/-- The `while` loop of `bin_log_scan` on the bytes `f` not yet read; the callback's `arg` is the
state `σ`.  Each turn reads at least the eight header bytes, so `f.length` turns are enough. -/
def binLogScanLoop (cb : σ → List UInt8 → BinLogCbResult × σ) : ℕ → List UInt8 → σ → BinLogScanResult × σ
  | 0, _, s => (.ok, s)
  | fuel + 1, f, s =>
    -- `fread(header, sizeof(uint32_t), 2, f) == 2`
    if f.length < 8 then (.ok, s)
    else
      let len := leValue (f.take 4)
      let storedCrc := leValue ((f.drop 4).take 4)
      let rest := f.drop 8
      if rest.length < len then (.torn, s)
      else if (crc32 (rest.take len)).toNat ≠ storedCrc then (.errCrc, s)
      else
        match cb s (rest.take len) with
        | (.continue, s') => binLogScanLoop cb fuel (rest.drop len) s'
        | (.stop, s') => (.stopped, s')
        | (.err, s') => (.cbErr, s')

/-- `bin_log_scan` on the file, `none` when it cannot be opened.  `realloc` of the payload buffer
is taken to succeed. -/
def binLogScan (file : Option (List UInt8)) (cb : σ → List UInt8 → BinLogCbResult × σ) (s : σ) :
    BinLogScanResult × σ :=
  match file with
  | none => (.noLog, s)
  | some f => binLogScanLoop cb f.length f s

/-! ## Frames -/

section Frames

variable (r : LogRecord)

@[simp] theorem length_binLogHeader (len crc : ℕ) : (binLogHeader len crc).length = 8 := by
  simp [binLogHeader]

theorem LogRecord.length_frame : r.frame.length = 8 + r.data.length := by
  rw [LogRecord.frame, List.length_append, length_binLogHeader]

theorem foldl_binLogAppend (rs : List LogRecord) (file : List UInt8) :
    rs.foldl binLogAppend file = file ++ rs.flatMap LogRecord.frame := by
  induction rs generalizing file with
  | nil => simp
  | cons r rs ih => rw [List.foldl_cons, ih, binLogAppend, List.flatMap_cons, List.append_assoc]

theorem binLogFile_eq (rs : List LogRecord) : binLogFile rs = rs.flatMap LogRecord.frame := by
  rw [binLogFile, foldl_binLogAppend, List.nil_append]

theorem header_of_take_eight {l : List UInt8} {len crc : ℕ} (hlen : len < 2 ^ 32) (hcrc : crc < 2 ^ 32)
    (h : l.take 8 = binLogHeader len crc) : leValue (l.take 4) = len ∧ leValue ((l.drop 4).take 4) = crc := by
  have h32 : (2 : ℕ) ^ 32 = 256 ^ 4 := by decide
  have hl : l.take 4 = leBytes 4 len := by
    rw [show l.take 4 = (l.take 8).take 4 by rw [List.take_take]; rfl, h, binLogHeader,
      List.take_left' length_leBytes]
  have hc : (l.drop 4).take 4 = leBytes 4 crc := by
    rw [show (l.drop 4).take 4 = (l.take 8).drop 4 by rw [List.drop_take], h, binLogHeader,
      List.drop_left' length_leBytes]
  rw [hl, hc]
  exact ⟨leValue_leBytes_of_lt (h32 ▸ hlen), leValue_leBytes_of_lt (h32 ▸ hcrc)⟩

theorem header_of_take_eight_frame {l : List UInt8} (h : l.take 8 = r.frame.take 8) :
    leValue (l.take 4) = r.data.length ∧ leValue ((l.drop 4).take 4) = (crc32 r.data).toNat := by
  refine header_of_take_eight r.len_lt (crc32 r.data).toNat_lt ?_
  rw [h, LogRecord.frame, List.take_left' (length_binLogHeader _ _)]

end Frames

/-! ## The scan -/

section Scan

variable (cb : σ → List UInt8 → BinLogCbResult × σ) (s : σ)

theorem binLogScanLoop_nil (fuel : ℕ) : binLogScanLoop cb fuel [] s = (.ok, s) := by
  cases fuel <;> rfl

theorem binLogScanLoop_crc_mismatch (fuel : ℕ) {d rest : List UInt8} {c : ℕ} (hd : d.length < 2 ^ 32)
    (hc : c < 2 ^ 32) (hne : c ≠ (crc32 d).toNat) :
    binLogScanLoop cb (fuel + 1) (binLogHeader d.length c ++ d ++ rest) s = (.errCrc, s) := by
  obtain ⟨hl, hcrc⟩ := header_of_take_eight hd hc (l := binLogHeader d.length c ++ d ++ rest)
    (by rw [List.append_assoc, List.take_left' (length_binLogHeader _ _)])
  have hdrop : (binLogHeader d.length c ++ d ++ rest).drop 8 = d ++ rest := by
    rw [List.append_assoc, List.drop_left' (length_binLogHeader _ _)]
  rw [binLogScanLoop, if_neg (by simp)]
  dsimp only
  rw [hl, hcrc, hdrop, if_neg (by rw [List.length_append]; omega), List.take_left' rfl, if_pos (Ne.symm hne)]

/-- **A whole record.**  The scan of a record's frame hands its bytes to the callback and, if the
callback goes on, scans what follows. -/
theorem binLogScanLoop_frame (r : LogRecord) (rest : List UInt8) (fuel : ℕ) :
    binLogScanLoop cb (fuel + 1) (r.frame ++ rest) s =
      match cb s r.data with
      | (.continue, s') => binLogScanLoop cb fuel rest s'
      | (.stop, s') => (.stopped, s')
      | (.err, s') => (.cbErr, s') := by
  have hframe := r.length_frame
  obtain ⟨hl, hcrc⟩ := header_of_take_eight_frame r (l := r.frame ++ rest)
    (List.take_append_of_le_length (by omega))
  have hdrop : (r.frame ++ rest).drop 8 = r.data ++ rest := by
    rw [LogRecord.frame, List.append_assoc, List.drop_left' (length_binLogHeader _ _)]
  rw [binLogScanLoop, if_neg (by rw [List.length_append]; omega)]
  dsimp only
  rw [hl, hcrc, hdrop, if_neg (by rw [List.length_append]; omega), List.take_left' rfl,
    if_neg (fun h => h rfl), List.drop_left' rfl]

/-- **A cut record.**  The scan of a record cut before its end stops there: torn when the cut is in
the payload, and the end of the `while` loop when it is in the header. -/
theorem binLogScanLoop_take_frame (r : LogRecord) (fuel : ℕ) {p : ℕ} (hp : p < r.frame.length) :
    binLogScanLoop cb (fuel + 1) (r.frame.take p) s = (if 8 ≤ p then .torn else .ok, s) := by
  have hframe := r.length_frame
  have htake : (r.frame.take p).length = p := by rw [List.length_take]; omega
  by_cases h8 : 8 ≤ p
  · obtain ⟨hl, -⟩ := header_of_take_eight_frame r (l := r.frame.take p)
      (by rw [List.take_take, Nat.min_eq_left h8])
    rw [binLogScanLoop, if_neg (show ¬(r.frame.take p).length < 8 by omega), if_pos h8]
    dsimp only
    rw [hl, if_pos (by rw [List.length_drop, htake]; omega)]
  · rw [binLogScanLoop, if_pos (show (r.frame.take p).length < 8 by omega), if_neg h8]

end Scan

/-! ## Logs cut by a crash -/

section Cut

/-- The records a cut at `p` keeps whole. -/
def keptRecords : List LogRecord → ℕ → List LogRecord
  | [], _ => []
  | r :: rs, p => if r.frame.length ≤ p then r :: keptRecords rs (p - r.frame.length) else []

/-- Where a cut at `p` falls: after every record (`none`), or `q` bytes into the first record it
does not keep whole (`q = 0` on the boundary before it). -/
def cutOffset : List LogRecord → ℕ → Option ℕ
  | [], _ => none
  | r :: rs, p => if r.frame.length ≤ p then cutOffset rs (p - r.frame.length) else some p

/-- What the scan reports for a cut: torn in a payload, the end of the log anywhere else. -/
def cutScanResult (rs : List LogRecord) (p : ℕ) : BinLogScanResult :=
  match cutOffset rs p with
  | some q => if 8 ≤ q then .torn else .ok
  | none => .ok

theorem keptRecords_cutOffset_append (pre post : List LogRecord) {q : ℕ}
    (hq : ∀ r ∈ post.head?, q < r.frame.length) :
    keptRecords (pre ++ post) ((pre.flatMap LogRecord.frame).length + q) = pre ∧
      cutOffset (pre ++ post) ((pre.flatMap LogRecord.frame).length + q) = post.head?.map fun _ => q := by
  induction pre with
  | nil =>
    cases post with
    | nil => exact ⟨rfl, rfl⟩
    | cons r post =>
      have hlt : ¬r.frame.length ≤ q := Nat.not_le.2 (hq r rfl)
      rw [List.nil_append, List.flatMap_nil, List.length_nil, Nat.zero_add, keptRecords, cutOffset,
        if_neg hlt, if_neg hlt]
      exact ⟨rfl, rfl⟩
  | cons r pre ih =>
    have hlen : (r.frame ++ pre.flatMap LogRecord.frame).length + q =
        r.frame.length + ((pre.flatMap LogRecord.frame).length + q) := by
      rw [List.length_append, Nat.add_assoc]
    have hle : r.frame.length ≤ r.frame.length + ((pre.flatMap LogRecord.frame).length + q) :=
      Nat.le_add_right _ _
    rw [List.cons_append, List.flatMap_cons, hlen, keptRecords, cutOffset, if_pos hle, if_pos hle,
      Nat.add_sub_cancel_left, ih.1, ih.2]
    exact ⟨rfl, rfl⟩

variable (cb : σ → List UInt8 → BinLogCbResult × σ) (hcb : ∀ s d, (cb s d).1 = .continue)
include hcb

theorem binLogScanLoop_frame_continue (r : LogRecord) (rest : List UInt8) (fuel : ℕ) (s : σ) :
    binLogScanLoop cb (fuel + 1) (r.frame ++ rest) s = binLogScanLoop cb fuel rest (cb s r.data).2 := by
  rw [binLogScanLoop_frame, show cb s r.data = (.continue, (cb s r.data).2) from Prod.ext (hcb s r.data) rfl]

/-- **Runs over a cut log.**  The induction is on the records; each step delivers a record the cut
keeps, and the last scans the cut one. -/
theorem binLogScanLoop_take (rs : List LogRecord) :
    ∀ (p fuel : ℕ) (s : σ), ((rs.flatMap LogRecord.frame).take p).length ≤ fuel →
      binLogScanLoop cb fuel ((rs.flatMap LogRecord.frame).take p) s =
        (cutScanResult rs p, (keptRecords rs p).foldl (fun s r => (cb s r.data).2) s) := by
  induction rs with
  | nil =>
    intro p fuel s _
    rw [List.flatMap_nil, List.take_nil, binLogScanLoop_nil]
    rfl
  | cons r rs ih =>
    intro p fuel s hfuel
    have hframe := r.length_frame
    rw [List.flatMap_cons] at hfuel ⊢
    by_cases hp : r.frame.length ≤ p
    · -- the cut keeps `r`: the scan delivers it and goes on with the rest
      rw [List.take_append, List.take_of_length_le hp] at hfuel ⊢
      rw [List.length_append] at hfuel
      obtain ⟨fuel, rfl⟩ : ∃ f, fuel = f + 1 := ⟨fuel - 1, by omega⟩
      rw [binLogScanLoop_frame_continue cb hcb, ih _ _ _ (by omega)]
      simp only [cutScanResult, cutOffset, keptRecords, if_pos hp, List.foldl_cons]
    · -- the cut falls in `r`
      rw [List.take_append_of_le_length (by omega)] at hfuel ⊢
      have hkept : keptRecords (r :: rs) p = [] := by rw [keptRecords, if_neg hp]
      have hres : cutScanResult (r :: rs) p = if 8 ≤ p then .torn else .ok := by
        rw [cutScanResult, cutOffset, if_neg hp]
      rw [hkept, hres, List.foldl_nil]
      cases fuel with
      | zero =>
        have hp0 : p = 0 := by rw [List.length_take] at hfuel; omega
        subst hp0
        rfl
      | succ fuel => exact binLogScanLoop_take_frame cb s r fuel (by omega)

/-- **A crash.**  The scan of a log of appended records cut at `p` calls the callback with the
records the cut keeps whole, in order, and reports a cut in a payload as torn and any other cut as
the end of the log. -/
theorem binLogScan_binLogFile_take (rs : List LogRecord) (p : ℕ) (s : σ) :
    binLogScan (some ((binLogFile rs).take p)) cb s =
      (cutScanResult rs p, (keptRecords rs p).foldl (fun s r => (cb s r.data).2) s) := by
  rw [binLogScan, binLogFile_eq]
  exact binLogScanLoop_take cb hcb rs p _ s (Nat.le_refl _)

theorem binLogScan_take_within (pre : List LogRecord) (r : LogRecord) (post : List LogRecord) {q : ℕ}
    (hq : q < r.frame.length) (s : σ) :
    binLogScan (some ((binLogFile (pre ++ r :: post)).take ((binLogFile pre).length + q))) cb s =
      (if 8 ≤ q then .torn else .ok, pre.foldl (fun s r => (cb s r.data).2) s) := by
  obtain ⟨hkept, hcut⟩ := keptRecords_cutOffset_append pre (r :: post) (q := q) fun r' hr' => by
    rw [List.head?_cons, Option.mem_some_iff] at hr'
    exact hr' ▸ hq
  rw [binLogScan_binLogFile_take cb hcb, binLogFile_eq pre, hkept, cutScanResult, hcut]
  rfl

example : binLogScan (some ((binLogFile [⟨[7, 8], by decide⟩]).take 9))
    (fun (s : List (List UInt8)) d => (.continue, s ++ [d])) [] = (.torn, []) := by
  decide

theorem binLogScan_take_of_length_le (rs : List LogRecord) {p : ℕ} (hp : (binLogFile rs).length ≤ p) (s : σ) :
    binLogScan (some ((binLogFile rs).take p)) cb s = (.ok, rs.foldl (fun s r => (cb s r.data).2) s) := by
  rw [binLogFile_eq] at hp
  obtain ⟨hkept, hcut⟩ :=
    keptRecords_cutOffset_append rs [] (q := p - (rs.flatMap LogRecord.frame).length) (by simp)
  rw [List.append_nil, Nat.add_sub_cancel' hp] at hkept hcut
  rw [binLogScan_binLogFile_take cb hcb, cutScanResult, hcut, hkept]
  rfl

/-- **A corrupt record.**  After records that read back, a header whose CRC does not match its
bytes stops the scan with `BL_SCAN_ERR_CRC`; nothing after it is delivered. -/
theorem binLogScan_crc_mismatch (rs : List LogRecord) {d : List UInt8} {c : UInt32} (hd : d.length < 2 ^ 32)
    (hne : c ≠ crc32 d) (rest : List UInt8) (s : σ) :
    binLogScan (some (binLogFile rs ++ binLogHeader d.length c.toNat ++ d ++ rest)) cb s =
      (.errCrc, rs.foldl (fun s r => (cb s r.data).2) s) := by
  have hne' : c.toNat ≠ (crc32 d).toNat := fun h => hne (UInt32.toNat_inj.1 h)
  rw [binLogScan, binLogFile_eq]
  -- the induction is on the records before the corrupt one
  suffices h : ∀ (rs : List LogRecord) (fuel : ℕ) (s : σ),
      (rs.flatMap LogRecord.frame ++ binLogHeader d.length c.toNat ++ d ++ rest).length ≤ fuel →
      binLogScanLoop cb fuel (rs.flatMap LogRecord.frame ++ binLogHeader d.length c.toNat ++ d ++ rest) s =
        (.errCrc, rs.foldl (fun s r => (cb s r.data).2) s) from h rs _ s (Nat.le_refl _)
  intro rs
  induction rs with
  | nil =>
    intro fuel s hfuel
    simp only [List.flatMap_nil, List.nil_append, List.length_append, length_binLogHeader] at hfuel ⊢
    obtain ⟨fuel, rfl⟩ : ∃ f, fuel = f + 1 := ⟨fuel - 1, by omega⟩
    exact binLogScanLoop_crc_mismatch cb s fuel hd c.toNat_lt hne'
  | cons r rs ih =>
    intro fuel s hfuel
    have hframe := r.length_frame
    simp only [List.flatMap_cons, List.append_assoc, List.length_append] at hfuel ⊢
    obtain ⟨fuel, rfl⟩ : ∃ f, fuel = f + 1 := ⟨fuel - 1, by omega⟩
    rw [binLogScanLoop_frame_continue cb hcb]
    have := ih fuel (cb s r.data).2 (by simp only [List.append_assoc, List.length_append]; omega)
    simp only [List.append_assoc] at this
    rw [this, List.foldl_cons]

theorem binLogScan_cut_and_crc :
    (∀ (pre : List LogRecord) (r : LogRecord) (post : List LogRecord) (q : ℕ) (s : σ), q < r.frame.length →
      binLogScan (some ((binLogFile (pre ++ r :: post)).take ((binLogFile pre).length + q))) cb s =
        (if 8 ≤ q then .torn else .ok, pre.foldl (fun s r => (cb s r.data).2) s)) ∧
    (∀ (rs : List LogRecord) (p : ℕ) (s : σ), (binLogFile rs).length ≤ p →
      binLogScan (some ((binLogFile rs).take p)) cb s = (.ok, rs.foldl (fun s r => (cb s r.data).2) s)) ∧
    ∀ (rs : List LogRecord) (d : List UInt8) (c : UInt32) (rest : List UInt8) (s : σ), d.length < 2 ^ 32 →
      c ≠ crc32 d → binLogScan (some (binLogFile rs ++ binLogHeader d.length c.toNat ++ d ++ rest)) cb s =
        (.errCrc, rs.foldl (fun s r => (cb s r.data).2) s) :=
  ⟨fun pre r post _ s hq => binLogScan_take_within cb hcb pre r post hq s,
    fun rs _ s hp => binLogScan_take_of_length_le cb hcb rs hp s,
    fun rs _ _ rest s hd hne => binLogScan_crc_mismatch cb hcb rs hd hne rest s⟩

end Cut

/-- One byte appended and the file cut four bytes into its header: the scan reports a clean end
and delivers nothing; with a stored CRC of `0` the byte is refused. -/
theorem binLogScan_cut_in_header :
    binLogScan (some ((binLogFile ([] ++ [⟨[7], by decide⟩])).take ((binLogFile []).length + 4)))
        (fun (s : List (List UInt8)) d => (.continue, s ++ [d])) [] = (.ok, []) ∧
      binLogScan (some (binLogFile [] ++ binLogHeader [7].length (0 : UInt32).toNat ++ [7] ++ []))
        (fun (s : List (List UInt8)) d => (.continue, s ++ [d])) [] = (.errCrc, []) := by
  have h := binLogScan_cut_and_crc (fun (s : List (List UInt8)) d => (.continue, s ++ [d])) fun _ _ => rfl
  refine ⟨(h.1 [] ⟨[7], by decide⟩ [] 4 [] ?_).trans (by decide), h.2.2 [] [7] 0 [] [] (by decide) ?_⟩
  · rw [LogRecord.length_frame]
    decide
  · decide

end Orrp.Core
