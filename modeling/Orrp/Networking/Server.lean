import Orrp.Lib.Lines
import Mathlib.Data.List.DropRight

/-!
# The command framer (`networking/server.c`)

A client's bytes arrive in reads of any size into its 64 KiB read buffer, after the bytes still
waiting there (`alloc_buffer`).  After each read `process_data_buffer` cuts the buffer at each
newline, checks each line against `MAX_COMMAND_LEN` and hands it to `process_one_command`, which
queues it for the workers; the bytes after the last newline move to the front of the buffer, and a
buffer full without a newline closes the connection.

`process_one_command` is given the line as a C string, and measures it with `strlen`: a NUL byte in
a line ends the command there.

* `processDataBufferFrom_eq` — the scan with `memchr` handles the lines of the buffer in turn;
* `Client.Reads.onRead` — a read takes a client that has read a stream to one that has read the
  stream and the read's bytes, as the stream's lines say;
* `onReads_stream` — so over any reads that fit the buffer the client queues the commands of the
  lines of the whole stream, each cut at its first NUL byte, closes exactly when a line is too
  long or the buffer fills, and keeps no newline between reads, however the stream is cut.
-/

namespace Orrp.Networking

open Orrp.Lib

/-- `READ_BUFFER_SIZE`: 64 KiB per client. -/
def readBufferSize : ℕ := 65536

/-- `MAX_COMMAND_LEN` (`core/data_constants.h`). -/
def maxCommandLen : ℕ := 2048

/-- `'\n'`. -/
def newline : UInt8 := 10

/-- The bytes `process_one_command` trims from the end of a command: `'\n'` and `'\r'`. -/
def isCrLf (b : UInt8) : Bool := b == 10 || b == 13

/-- The part of `client_t` the framer uses: the first `buffer_len` bytes of `read_buffer`, whether
the client is connected, and the commands `process_one_command` has queued for the workers with
`uv_queue_work`, in order. -/
structure Client where
  readBuffer : List UInt8
  connected : Bool
  queued : List (List UInt8)

/-- A client as `on_new_connection` sets it up: an empty buffer, connected. -/
def clientInit : Client := ⟨[], true, []⟩

/-- `alloc_buffer`: the free space after the buffered bytes, which the next read may fill. -/
def allocBuffer (c : Client) : ℕ := readBufferSize - c.readBuffer.length

/-- The command `process_one_command` makes of the C string at the start of `line`: `strlen` stops
at the first NUL byte, and trailing CR and LF bytes are trimmed; an empty command is ignored. -/
def commandOf (line : List UInt8) : Option (List UInt8) :=
  let command := (line.takeWhile (· != 0)).rdropWhile isCrLf
  if command = [] then none else some command

/-- `process_one_command`: a command is queued for the workers.  The source answers a failed
allocation or `uv_queue_work` with an error response instead; the model leaves them out. -/
def processOneCommand (c : Client) (line : List UInt8) : Client :=
  match commandOf line with
  | none => c
  | some command => { c with queued := c.queued ++ [command] }

/-- The end of `process_data_buffer`: the leftover partial command moves to the front of the
buffer, and a buffer that is full without a newline closes the connection. -/
def compactBuffer (c : Client) (rest : List UInt8) : Client :=
  if rest.length = readBufferSize then { c with readBuffer := rest, connected := false }
  else { c with readBuffer := rest }

/-- The loop of `process_data_buffer` from `buffer_start`; `rest` are the bytes from there to
`buffer_end`. -/
def processDataBufferFrom (c : Client) (rest : List UInt8) : Client :=
  -- `memchr(buffer_start, '\n', buffer_end - buffer_start)`
  match _hspan : rest.span (· != newline) with
  | (_, []) => compactBuffer c rest
  | (line, _ :: after) =>
    -- `newline_pos - buffer_start > MAX_COMMAND_LEN` closes the connection
    if maxCommandLen < line.length then { c with connected := false }
    else
      let c' := processOneCommand c line
      if !c'.connected then c' else processDataBufferFrom c' after
termination_by rest.length
decreasing_by
  rw [List.span_eq_takeWhile_dropWhile, Prod.mk.injEq] at _hspan
  have hsplit := List.takeWhile_append_dropWhile (p := fun x => x != newline) (l := rest)
  rw [_hspan.1, _hspan.2] at hsplit
  rw [← hsplit, List.length_append, List.length_cons]
  omega

/-- `process_data_buffer`. -/
def processDataBuffer (c : Client) : Client := processDataBufferFrom c c.readBuffer

/-- What libuv hands `on_read`: `nread ≥ 0` bytes read into the space `alloc_buffer` gave, or a
negative `nread`, an error or the end of the stream. -/
inductive ReadResult
  | data (bytes : List UInt8)
  | failed

/-- `on_read`.  The idle timer it resets is left out. -/
def onRead (c : Client) : ReadResult → Client
  | .data [] => c
  | .data bytes => processDataBuffer { c with readBuffer := c.readBuffer ++ bytes }
  | .failed => { c with connected := false }

/-- The client after the reads `rs`, in turn. -/
def onReads (c : Client) (rs : List (List UInt8)) : Client :=
  rs.foldl (fun c bytes => onRead c (.data bytes)) c

/-- Reads a client can be given: each fits the space `alloc_buffer` offers, and none comes after the
connection is closed. -/
def ReadsFit : Client → List (List UInt8) → Prop
  | _, [] => True
  | c, bytes :: rs => c.connected = true ∧ bytes.length ≤ allocBuffer c ∧ ReadsFit (onRead c (.data bytes)) rs

@[simp] theorem processOneCommand_connected (c : Client) (line : List UInt8) :
    (processOneCommand c line).connected = c.connected := by
  unfold processOneCommand
  split <;> rfl

@[simp] theorem processOneCommand_queued (c : Client) (line : List UInt8) :
    (processOneCommand c line).queued = c.queued ++ (commandOf line).toList := by
  unfold processOneCommand
  split <;> simp_all

/-! ## The scan, line by line -/

/-- The loop of `process_data_buffer` over the lines `ls` of the buffer and the tail `t` after them. -/
def frameLines (c : Client) : List (List UInt8) → List UInt8 → Client
  | [], t => compactBuffer c t
  | l :: ls, t =>
    if maxCommandLen < l.length then { c with connected := false }
    else frameLines (processOneCommand c l) ls t

/-- **The scan.**  From a connected client, the `memchr` loop handles the lines of the buffer in
turn, then its tail; induction on the bytes left to scan. -/
theorem processDataBufferFrom_eq (rest : List UInt8) (c : Client) (hc : c.connected = true) :
    processDataBufferFrom c rest = frameLines c (lines newline rest).1 (lines newline rest).2 := by
  induction hn : rest.length using Nat.strong_induction_on generalizing c rest with
  | _ n ih =>
    rw [processDataBufferFrom]
    split
    next line hspan =>
      rcases lines_span hspan with ⟨-, hlines⟩ | ⟨after, hafter, -, -⟩
      · rw [hlines]
        rfl
      · cases hafter
    next line x after hspan =>
      rcases lines_span hspan with ⟨hnil, -⟩ | ⟨after', hafter, hrest, hlines⟩
      · cases hnil
      · obtain ⟨rfl, rfl⟩ := List.cons.inj hafter
        rw [hlines, frameLines]
        dsimp only
        -- `process_one_command` does not disconnect the client, so the loop goes on
        rw [processOneCommand_connected, hc]
        split_ifs with hlong hdisc
        · rfl
        · exact absurd hdisc (by decide)
        · have hlt : after.length < n := by
            rw [← hn, hrest, List.length_append, List.length_cons]
            omega
          exact ih after.length hlt after _ (by rw [processOneCommand_connected, hc]) rfl

/-- **The lines of one scan.**  From a connected client, the scan queues the commands of the lines
up to the first one too long, closes exactly when there is one or the tail fills the buffer, and
otherwise keeps the tail; induction on the lines. -/
theorem frameLines_spec (ls : List (List UInt8)) (c : Client) (hc : c.connected = true) {t : List UInt8}
    (ht : t.length ≤ readBufferSize) :
    (frameLines c ls t).queued = c.queued ++ (ls.takeWhile (·.length ≤ maxCommandLen)).filterMap commandOf ∧
      ((frameLines c ls t).connected = false ↔
        (∃ l ∈ ls, maxCommandLen < l.length) ∨ readBufferSize ≤ t.length) ∧
      ((frameLines c ls t).connected = true → (frameLines c ls t).readBuffer = t) := by
  induction ls generalizing c with
  | nil =>
    unfold frameLines compactBuffer
    split_ifs with hfull
    · exact ⟨by simp, by simp [hfull], fun h => by cases h⟩
    · refine ⟨by simp, ?_, fun _ => rfl⟩
      simp only [hc, List.not_mem_nil, false_and, exists_false, false_or, Bool.true_eq_false, false_iff]
      omega
  | cons l ls ih =>
    rw [frameLines]
    split_ifs with hlong
    · -- a line too long: nothing more is queued, and the connection closes
      have hstop : ¬ decide (l.length ≤ maxCommandLen) = true := by simpa using hlong
      refine ⟨by simp [hstop], ⟨fun _ => .inl ⟨l, List.mem_cons_self, hlong⟩,
        fun _ => rfl⟩, fun h => by cases h⟩
    · obtain ⟨hq, hclosed, hbuf⟩ := ih (processOneCommand c l) (by rw [processOneCommand_connected, hc])
      have hok : decide (l.length ≤ maxCommandLen) = true := by simpa using hlong
      refine ⟨?_, ?_, hbuf⟩
      · rw [hq, processOneCommand_queued, List.takeWhile_cons, if_pos hok, List.filterMap_cons]
        cases commandOf l <;> simp
      · rw [hclosed]
        simp only [List.mem_cons, exists_eq_or_imp, hlong, false_or]

/-! ## What a stream gives -/

/-- The commands the stream `s` carries: those of its lines up to the first line longer than
`MAX_COMMAND_LEN`. -/
def streamCommands (s : List UInt8) : List (List UInt8) :=
  ((lines newline s).1.takeWhile (·.length ≤ maxCommandLen)).filterMap commandOf

/-- The stream closes the connection: a line is longer than `MAX_COMMAND_LEN`, or the bytes after
the last newline fill the buffer. -/
def StreamCloses (s : List UInt8) : Prop :=
  (∃ l ∈ (lines newline s).1, maxCommandLen < l.length) ∨ readBufferSize ≤ (lines newline s).2.length

/-- The client has read the stream `s` as its lines say: it queued the stream's commands, it is
closed exactly when the stream closes it, and while connected it holds the stream's tail. -/
structure Client.Reads (c : Client) (s : List UInt8) : Prop where
  queued : c.queued = streamCommands s
  closed : c.connected = false ↔ StreamCloses s
  buffer : c.connected = true → c.readBuffer = (lines newline s).2

theorem reads_init : clientInit.Reads [] :=
  ⟨rfl, by simp [clientInit, StreamCloses, readBufferSize], fun _ => rfl⟩

namespace Client.Reads

variable {c : Client} {s : List UInt8}

theorem open_lines (h : c.Reads s) (hc : c.connected = true) :
    (∀ l ∈ (lines newline s).1, l.length ≤ maxCommandLen) ∧ (lines newline s).2.length < readBufferSize := by
  have hopen : ¬ StreamCloses s := fun hs => by
    rw [← h.closed] at hs
    rw [hc] at hs
    cases hs
  simp only [StreamCloses, not_or, not_exists, not_and, not_lt, not_le] at hopen
  exact hopen

/-- **A read.**  A connected client that has read `s` and is given bytes that fit its buffer has
read `s` and the bytes. -/
theorem onRead (h : c.Reads s) (hc : c.connected = true) {bytes : List UInt8}
    (hfit : bytes.length ≤ allocBuffer c) : (Networking.onRead c (.data bytes)).Reads (s ++ bytes) := by
  obtain ⟨hok, htail⟩ := h.open_lines hc
  have hbuf := h.buffer hc
  cases bytes with
  | nil => rwa [List.append_nil]
  | cons b bytes =>
    have hscan := processDataBufferFrom_eq ((lines newline s).2 ++ b :: bytes)
      { c with readBuffer := c.readBuffer ++ b :: bytes } hc
    rw [hbuf] at hscan
    show (processDataBufferFrom { c with readBuffer := c.readBuffer ++ b :: bytes }
      (c.readBuffer ++ b :: bytes)).Reads (s ++ b :: bytes)
    rw [hbuf, hscan]
    have hlen : (lines newline ((lines newline s).2 ++ b :: bytes)).2.length ≤ readBufferSize := by
      have hsuffix := congrArg List.length (@lines_spec _ _ newline ((lines newline s).2 ++ b :: bytes)).1
      rw [unlines, List.length_append] at hsuffix
      unfold allocBuffer at hfit
      rw [hbuf] at hfit
      simp only [List.length_append] at hsuffix
      omega
    obtain ⟨hq, hclosed, hrest⟩ := frameLines_spec (lines newline ((lines newline s).2 ++ b :: bytes)).1
      { c with readBuffer := (lines newline s).2 ++ b :: bytes } hc hlen
    have hfirst : (lines newline s).1.takeWhile (·.length ≤ maxCommandLen) = (lines newline s).1 :=
      List.takeWhile_eq_self_iff.2 fun l hl => by simpa using hok l hl
    have happ := @lines_append _ _ newline s (b :: bytes)
    refine ⟨?_, ?_, ?_⟩
    · rw [hq, h.queued, streamCommands, streamCommands, happ,
        List.takeWhile_append_of_pos fun l hl => by simpa using hok l hl, List.filterMap_append, hfirst]
    · rw [hclosed, StreamCloses, happ]
      simp only [List.mem_append]
      constructor
      · rintro (⟨l, hl, hlong⟩ | hfull)
        · exact .inl ⟨l, Or.inr hl, hlong⟩
        · exact .inr hfull
      · rintro (⟨l, hl | hl, hlong⟩ | hfull)
        · exact absurd (hok l hl) (by omega)
        · exact .inl ⟨l, hl, hlong⟩
        · exact .inr hfull
    · intro hconn
      rw [hrest hconn, happ]

/-- **Runs of reads.**  A client that has read `s`, given reads that fit, has read `s` and the reads;
induction on the reads. -/
theorem onReads (h : c.Reads s) {rs : List (List UInt8)} (hfit : ReadsFit c rs) :
    (Networking.onReads c rs).Reads (s ++ rs.flatten) := by
  induction rs generalizing c s with
  | nil => simpa [Networking.onReads] using h
  | cons bytes rs ih =>
    obtain ⟨hc, hb, hrest⟩ := hfit
    have hnext := ih (h.onRead hc hb) hrest
    rwa [List.append_assoc] at hnext

end Client.Reads

/-- **The framer.**  Over any reads that fit the free space of the buffer, from a new connection,
the connection is closed exactly when a line of the whole stream is longer than `MAX_COMMAND_LEN`
or the bytes after its last newline fill the 64 KiB buffer; the commands queued are the lines of
the stream up to the first one too long, each cut at its first NUL byte, with trailing CR and LF
bytes trimmed and empty ones skipped; and between reads the buffer holds the bytes after the last
newline, with no newline among them.  All of it depends on the stream only, not on how it is cut
into reads. -/
theorem onReads_stream {rs : List (List UInt8)} (hfit : ReadsFit clientInit rs) :
    ((onReads clientInit rs).connected = false ↔
      (∃ l ∈ (lines newline rs.flatten).1, maxCommandLen < l.length) ∨
        readBufferSize ≤ (lines newline rs.flatten).2.length) ∧
    (onReads clientInit rs).queued =
      ((lines newline rs.flatten).1.takeWhile (·.length ≤ maxCommandLen)).filterMap commandOf ∧
    ((onReads clientInit rs).connected = true →
      (onReads clientInit rs).readBuffer = (lines newline rs.flatten).2 ∧
        newline ∉ (onReads clientInit rs).readBuffer) := by
  have h := reads_init.onReads hfit
  rw [List.nil_append] at h
  refine ⟨h.closed, h.queued, fun hc => ⟨h.buffer hc, ?_⟩⟩
  rw [h.buffer hc]
  exact (@lines_spec _ _ newline rs.flatten).2.2

theorem onReads_stream_split :
    ReadsFit clientInit [[97, 13], [10, 98, 10]] ∧
    (((onReads clientInit [[97, 13], [10, 98, 10]]).connected = false ↔
      (∃ l ∈ (lines newline [[97, 13], [10, 98, 10]].flatten).1, maxCommandLen < l.length) ∨
        readBufferSize ≤ (lines newline [[97, 13], [10, 98, 10]].flatten).2.length) ∧
    (onReads clientInit [[97, 13], [10, 98, 10]]).queued =
      ((lines newline [[97, 13], [10, 98, 10]].flatten).1.takeWhile (·.length ≤ maxCommandLen)).filterMap
        commandOf ∧
    ((onReads clientInit [[97, 13], [10, 98, 10]]).connected = true →
      (onReads clientInit [[97, 13], [10, 98, 10]]).readBuffer = (lines newline [[97, 13], [10, 98, 10]].flatten).2 ∧
        newline ∉ (onReads clientInit [[97, 13], [10, 98, 10]]).readBuffer)) := by
  have hfirst : onRead clientInit (.data [97, 13]) =
      frameLines ⟨[97, 13], true, []⟩ (lines newline [97, 13]).1 (lines newline [97, 13]).2 :=
    processDataBufferFrom_eq _ _ rfl
  have hfit : ReadsFit clientInit [[97, 13], [10, 98, 10]] := by
    refine ⟨rfl, by decide, ?_⟩
    rw [hfirst]
    exact ⟨by decide, by decide, trivial⟩
  exact ⟨hfit, onReads_stream hfit⟩

/-- A NUL byte ends the command: a read of `a\0b\n` queues `a`, though the line is `a\0b`. -/
theorem onReads_nul :
    ReadsFit clientInit [[97, 0, 98, 10]] ∧ (lines newline [97, 0, 98, 10]).1 = [[97, 0, 98]] ∧
      (onReads clientInit [[97, 0, 98, 10]]).queued = [[97]] := by
  have hread : onReads clientInit [[97, 0, 98, 10]] =
      frameLines ⟨[97, 0, 98, 10], true, []⟩ (lines newline [97, 0, 98, 10]).1
        (lines newline [97, 0, 98, 10]).2 :=
    processDataBufferFrom_eq _ _ rfl
  refine ⟨⟨rfl, by decide, trivial⟩, by decide, ?_⟩
  rw [hread]
  decide

end Orrp.Networking
