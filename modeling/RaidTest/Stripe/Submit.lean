import RaidTest.Stripe.Tiling

/-!
# Transfers through the disk workers (`submit_entries`)

The entries of a mapped request are handed to one worker a member and done in
any order. Entry `i` moves the bytes behind the lengths of the entries before it.
-/

namespace RaidTest.Stripe
open RaidTest.Base

/-! ### Requests -/

/-- `se[]` and the requests made from it. -/
def makeRequests (ws : List DiskId) (op : IoOpType) : ℕ → ℕ → List IoMappingEntry → List IoRequest
  | _, _, [] => []
  | slot, cum, e :: es =>
    ⟨op, slot, ws.getD e.diskIndex 0, cum, e.physicalOffset, e.lengthBytes⟩ ::
      makeRequests ws op (slot + 1) (cum + e.lengthBytes) es

structure IoState where
  disks : Disks
  buffer : Buf
  error : Bool

/-- One turn of `disk_worker_thread`. -/
def performRequest (io : IoEnv) (s : IoState) (r : IoRequest) : IoState :=
  match r.op, io.result r.slot with
  | .write, .ok =>
    { s with disks := s.disks.writePool r.disk r.physicalOffset r.length (s.buffer.shift r.bufferOffset) }
  | .write, .error left =>
    { s with
      disks := (s.disks.writePool r.disk r.physicalOffset r.length left).markFaulty r.disk
      error := true }
  | .read, .ok =>
    { s with buffer :=
        Buf.put s.buffer r.bufferOffset r.length (Buf.shift (s.disks.pool r.disk) r.physicalOffset) }
  | .read, .error left =>
    { s with
      disks := s.disks.markFaulty r.disk
      buffer := Buf.put s.buffer r.bufferOffset r.length left
      error := true }

/-- An entry that `submit_entries` skips. -/
def skips (diskCount : ℕ) (e : IoMappingEntry) : Bool := decide (diskCount ≤ e.diskIndex)

/-- The requests of the entries that are not skipped. -/
def pushedRequests (diskCount : ℕ) (entries : List IoMappingEntry) (reqs : List IoRequest) : List IoRequest :=
  ((entries.zip reqs).filter fun x => !skips diskCount x.1).map Prod.snd

/-- `submit_entries`. There is no result where the C code has none: more entries than `se` holds,
an entry of a member behind the table of workers, or a skipped entry that is counted last, after
which nobody sets the event. -/
def submitEntries (io : IoEnv) (d : Disks) (v : StripeVolume) (entries : List IoMappingEntry)
    (buffer : Buf) (op : IoOpType) : Option (Bool × Disks × Buf) :=
  if entries = [] then some (true, d, buffer)
  else
    match v.workerState with
    | none => some (false, d, buffer)
    | some ws =>
      if io.event = false then some (false, d, buffer)
      else if entries.length > ioRingSize ∨
          ∃ e ∈ entries, e.diskIndex < v.diskCount ∧ ws.length ≤ e.diskIndex then none
      else
        let reqs := pushedRequests v.diskCount entries (makeRequests ws op 0 0 entries)
        if entries.getLast?.any (skips v.diskCount) ∧ (reqs = [] ∨ io.busy = false) then none
        else
          let s := (io.order reqs).foldl (performRequest io) ⟨d, buffer, entries.any (skips v.diskCount)⟩
          some (!s.error, s.disks, s.buffer)

/-! ### What a list of transfers does -/

theorem makeRequests_place (ws : List DiskId) (op : IoOpType) (slot cum : ℕ)
    (es : List IoMappingEntry) :
    (makeRequests ws op slot cum es).map IoRequest.place =
      places cum (es.map fun e => ⟨ws.getD e.diskIndex 0, e.physicalOffset, e.lengthBytes⟩) := by
  induction es generalizing slot cum with
  | nil => rfl
  | cons e es ih =>
    simp only [makeRequests, List.map_cons, places, ih]
    rfl

theorem makeRequests_slot (ws : List DiskId) (op : IoOpType) (slot cum : ℕ)
    (es : List IoMappingEntry) :
    (makeRequests ws op slot cum es).map IoRequest.slot = List.range' slot es.length := by
  induction es generalizing slot cum with
  | nil => rfl
  | cons e es ih => simp only [makeRequests, List.map_cons, ih, List.length_cons, List.range'_succ]

theorem makeRequests_op {ws : List DiskId} {op : IoOpType} {slot cum : ℕ}
    {es : List IoMappingEntry} {r : IoRequest} (hr : r ∈ makeRequests ws op slot cum es) :
    r.op = op := by
  induction es generalizing slot cum with
  | nil => cases hr
  | cons e es ih =>
    rcases List.mem_cons.mp hr with rfl | hm
    · rfl
    · exact ih hm

def writePatch (io : IoEnv) (buffer : Buf) (r : IoRequest) : Patch DiskId Byte :=
  ⟨r.place.2, (io.result r.slot).brings (buffer.shift r.place.1)⟩

def readPatch (io : IoEnv) (pool : DiskId → Buf) (r : IoRequest) : Patch Unit Byte :=
  ⟨⟨(), r.place.1, r.place.2.len⟩,
    (io.result r.slot).brings (Buf.shift (pool r.place.2.key) r.place.2.off)⟩

theorem foldl_write (io : IoEnv) (l : List IoRequest) (s : IoState) (hl : ∀ r ∈ l, r.op = .write) :
    (l.foldl (performRequest io) s).disks.pool =
        applyAll (l.map (writePatch io s.buffer)) s.disks.pool ∧
      (l.foldl (performRequest io) s).buffer = s.buffer ∧
      (l.foldl (performRequest io) s).error = (s.error || l.any fun r => !(io.result r.slot).isOk) := by
  induction l generalizing s with
  | nil => exact ⟨rfl, rfl, by simp only [List.foldl_nil, List.any_nil, Bool.or_false]⟩
  | cons r l ih =>
    have hop := hl r (List.mem_cons_self ..)
    obtain ⟨h1, h2, h3⟩ := ih (performRequest io s r) (fun q hq => hl q (List.mem_cons_of_mem _ hq))
    have hr : (performRequest io s r).disks.pool = (writePatch io s.buffer r).apply s.disks.pool ∧
        (performRequest io s r).buffer = s.buffer ∧
        (performRequest io s r).error = (s.error || !(io.result r.slot).isOk) := by
      unfold performRequest writePatch
      rw [hop]
      cases io.result r.slot with
      | ok => exact ⟨rfl, rfl, by simp only [Transfer.isOk, Bool.not_true, Bool.or_false]⟩
      | error left => exact ⟨rfl, rfl, by simp only [Transfer.isOk, Bool.not_false, Bool.or_true]⟩
    obtain ⟨hr1, hr2, hr3⟩ := hr
    simp only [List.foldl_cons, List.map_cons, applyAll_cons, List.any_cons]
    refine ⟨?_, h2.trans hr2, ?_⟩
    · rw [h1, hr1, hr2]
    · rw [h3, hr3, Bool.or_assoc]

theorem foldl_read (io : IoEnv) (l : List IoRequest) (s : IoState) (hl : ∀ r ∈ l, r.op = .read) :
    (l.foldl (performRequest io) s).disks.pool = s.disks.pool ∧
      (fun _ => (l.foldl (performRequest io) s).buffer) =
        applyAll (l.map (readPatch io s.disks.pool)) (fun _ => s.buffer) ∧
      (l.foldl (performRequest io) s).error = (s.error || l.any fun r => !(io.result r.slot).isOk) := by
  induction l generalizing s with
  | nil => exact ⟨rfl, rfl, by simp only [List.foldl_nil, List.any_nil, Bool.or_false]⟩
  | cons r l ih =>
    have hop := hl r (List.mem_cons_self ..)
    obtain ⟨h1, h2, h3⟩ := ih (performRequest io s r) (fun q hq => hl q (List.mem_cons_of_mem _ hq))
    have hr : (performRequest io s r).disks.pool = s.disks.pool ∧
        (fun _ => (performRequest io s r).buffer) =
          (readPatch io s.disks.pool r).apply (fun _ => s.buffer) ∧
        (performRequest io s r).error = (s.error || !(io.result r.slot).isOk) := by
      unfold performRequest readPatch
      rw [hop]
      cases io.result r.slot with
      | ok =>
        exact ⟨rfl, Buf.put_patch _ _ _ _, by simp only [Transfer.isOk, Bool.not_true, Bool.or_false]⟩
      | error left =>
        exact ⟨rfl, Buf.put_patch _ _ _ _, by simp only [Transfer.isOk, Bool.not_false, Bool.or_true]⟩
    obtain ⟨hr1, hr2, hr3⟩ := hr
    simp only [List.foldl_cons, List.map_cons, applyAll_cons, List.any_cons]
    refine ⟨h1.trans hr1, ?_, ?_⟩
    · rw [h2, hr1, hr2]
    · rw [h3, hr3, Bool.or_assoc]

theorem any_error (io : IoEnv) {l m : List IoRequest} {n : ℕ} (hp : m.Perm l)
    (hs : l.map IoRequest.slot = List.range' 0 n) :
    (m.any fun r => !(io.result r.slot).isOk) = !io.allOk n := by
  have hm : (m.any fun r => !(io.result r.slot).isOk) =
      (l.map IoRequest.slot).any fun i => !(io.result i).isOk := by
    rw [List.any_map]
    exact hp.any_eq
  rw [hm, hs, IoEnv.allOk, List.not_all_eq_any_not]

/-! ### The virtual bytes of a volume -/

/-- The pool byte that holds virtual byte `x`. -/
def vbyte (v : StripeVolume) (d : Disks) (x : ℕ) : Byte := d.pool (vcell v x).1 (vcell v x).2

theorem vbyte_pool (v : StripeVolume) {d e : Disks} (h : e.pool = d.pool) : vbyte v e = vbyte v d := by
  funext x
  simp only [vbyte, h]

/-- A laid out volume with its members and a worker for each. -/
structure Ready (v : StripeVolume) : Prop where
  laid : Laid v
  members : Members v
  workers : v.workerState = some (memberList v)

theorem memberList_getD {v : StripeVolume} {i : ℕ} (h : i < v.diskCount) :
    (memberList v).getD i 0 = v.diskAt i := by
  unfold memberList
  rw [List.getD_eq_getElem _ 0 (by simpa using h), List.getElem_map, List.getElem_range]

theorem entries_extent {v : StripeVolume} {es : List IoMappingEntry}
    (h : ∀ e ∈ es, e.diskIndex < v.diskCount) :
    (es.map fun e => (⟨(memberList v).getD e.diskIndex 0, e.physicalOffset, e.lengthBytes⟩ : Extent DiskId)) =
      es.map (entryExtent v) := by
  apply List.map_congr_left
  intro e he
  rw [memberList_getD (h e he)]
  rfl

theorem entries_place {v : StripeVolume} {es : List IoMappingEntry} (op : IoOpType)
    (h : ∀ e ∈ es, e.diskIndex < v.diskCount) :
    (makeRequests (memberList v) op 0 0 es).map IoRequest.place =
      places 0 (es.map (entryExtent v)) := by
  rw [makeRequests_place, entries_extent h]

/-- The virtual bytes from `vo` to `stop` now hold `data`, or what a failed transfer left
there; no other pool byte changed. -/
structure Wrote (v : StripeVolume) (io : IoEnv) (n : ℕ) (d d' : Disks) (data : Buf) (vo stop : ℕ) :
    Prop where
  inside : ∀ x, vo ≤ x → x < stop → vbyte v d' x = data (x - vo) ∨
    ∃ i < n, ∃ left k, io.result i = .error left ∧ vbyte v d' x = left k
  outside : ∀ k p, (∀ x, vo ≤ x → x < stop → vcell v x ≠ (k, p)) → d'.pool k p = d.pool k p

theorem Wrote.data {v : StripeVolume} {io : IoEnv} {n : ℕ} {d d' : Disks} {data : Buf}
    {vo stop x : ℕ} (h : Wrote v io n d d' data vo stop) (hok : io.allOk n = true) (h1 : vo ≤ x)
    (h2 : x < stop) : vbyte v d' x = data (x - vo) := by
  rcases h.inside x h1 h2 with he | ⟨i, hi, left, k, he, _⟩
  · exact he
  · rw [(io.allOk_iff n).mp hok i hi] at he
    cases he

/-- What is unchanged outside the cells of a range is unchanged at every other virtual byte. -/
theorem vbyte_frame {v : StripeVolume} (hl : Laid v) (hm : Members v) {d d' : Disks} {vo stop x : ℕ}
    (h : ∀ k p, (∀ x, vo ≤ x → x < stop → vcell v x ≠ (k, p)) → d'.pool k p = d.pool k p)
    (hs : stop ≤ v.virtualTotalBytes) (hx : x < v.virtualTotalBytes) (hout : x < vo ∨ stop ≤ x) :
    vbyte v d' x = vbyte v d x := by
  apply h
  intro y hy1 hy2 he
  have hyx := vcell_inj hl hm (by omega) hx he
  omega

section Transfers
variable {v : StripeVolume} {es : List IoMappingEntry} {vo stop : ℕ}

theorem vcell_inj_from (vo : ℕ) (hl : Laid v) (hm : Members v) (hs : stop ≤ v.virtualTotalBytes) :
    ∀ i j, 0 ≤ i → i < stop - vo → 0 ≤ j → j < stop - vo →
      vcell v (vo + i) = vcell v (vo + j) → i = j := by
  intro i j _ hi _ hj he
  have heq := vcell_inj hl hm (by omega) (by omega) he
  omega

theorem covers_from (hc : Covers (vcell v) vo (es.map (entryExtent v)) stop) :
    Covers (fun i => vcell v (vo + i)) 0 (es.map (entryExtent v)) (stop - vo) := by
  apply Covers.shift
  have hle := hc.le
  rw [Nat.add_zero, show vo + (stop - vo) = stop by omega]
  exact hc

/-- Any of the transfers of a covering list of entries stay inside the range. -/
theorem requests_outside (hc : Covers (vcell v) vo (es.map (entryExtent v)) stop)
    (hdi : ∀ e ∈ es, e.diskIndex < v.diskCount) (io : IoEnv) (d d' : Disks) (buffer : Buf)
    (l : List IoRequest) (hl : ∀ r ∈ l, r ∈ makeRequests (memberList v) .write 0 0 es)
    (hd : d'.pool = applyAll (l.map (writePatch io buffer)) d.pool) (k : DiskId) (p : ℕ)
    (hn : ∀ x, vo ≤ x → x < stop → vcell v x ≠ (k, p)) : d'.pool k p = d.pool k p := by
  rw [hd]
  exact applyAll_outside (covers_from hc) IoRequest.place
    (fun r => (io.result r.slot).brings (buffer.shift r.place.1)) d.pool hl (entries_place .write hdi)
    k p (fun i _ hi => hn (vo + i) (by omega) (by omega))

/-- The transfers of a covering list of entries, in whatever order, write the range. -/
theorem requests_write (hl : Laid v) (hm : Members v)
    (hc : Covers (vcell v) vo (es.map (entryExtent v)) stop)
    (hdi : ∀ e ∈ es, e.diskIndex < v.diskCount) (hs : stop ≤ v.virtualTotalBytes)
    (io : IoEnv) (d d' : Disks) (buffer : Buf) (l : List IoRequest)
    (hp : l.Perm (makeRequests (memberList v) .write 0 0 es))
    (hd : d'.pool = applyAll (l.map (writePatch io buffer)) d.pool) :
    Wrote v io es.length d d' buffer vo stop := by
  have hcov := covers_from hc
  have hinj := vcell_inj_from vo hl hm hs
  have hpl := entries_place .write hdi
  constructor
  · intro x h1 h2
    obtain ⟨r, hr, hr1, hr2, he⟩ := applyAll_store hcov hinj IoRequest.place
      (fun r => (io.result r.slot).brings (buffer.shift r.place.1)) d.pool hp hpl
      (Nat.zero_le (x - vo)) (by omega)
    have hslot : r.slot < es.length := by
      have hms := List.mem_map_of_mem (f := IoRequest.slot) hr
      rw [makeRequests_slot, List.mem_range'_1] at hms
      omega
    have hb : vbyte v d' x =
        (io.result r.slot).brings (buffer.shift r.place.1) (x - vo - r.place.1) := by
      rw [← he, vbyte, hd, show vo + (x - vo) = x by omega]
      rfl
    rw [hb]
    cases hres : io.result r.slot with
    | ok =>
      left
      simp only [Transfer.brings, Buf.shift]
      rw [show r.place.1 + (x - vo - r.place.1) = x - vo by omega]
    | error left =>
      right
      exact ⟨r.slot, hslot, left, _, hres, rfl⟩
  · intro k p hn
    exact requests_outside hc hdi io d d' buffer l (fun r hr => hp.mem_iff.mp hr) hd k p hn

/-- The transfers of a covering list of entries, in whatever order, read the range. -/
theorem requests_read (hc : Covers (vcell v) vo (es.map (entryExtent v)) stop)
    (hdi : ∀ e ∈ es, e.diskIndex < v.diskCount) (io : IoEnv) (d : Disks) (buffer out : Buf)
    (l : List IoRequest) (hp : l.Perm (makeRequests (memberList v) .read 0 0 es))
    (hd : (fun _ => out) = applyAll (l.map (readPatch io d.pool)) (fun _ : Unit => buffer))
    (hok : io.allOk es.length = true) : ∀ i < stop - vo, out i = vbyte v d (vo + i) := by
  intro i hi
  obtain ⟨r, hr, hr1, hr2, hcell, he⟩ := applyAll_fetch (covers_from hc) IoRequest.place
    (fun r => (io.result r.slot).brings (Buf.shift (d.pool r.place.2.key) r.place.2.off))
    (fun _ : Unit => buffer) hp (entries_place .read hdi) (Nat.zero_le i) hi
  have hslot : r.slot < es.length := by
    have hms := List.mem_map_of_mem (f := IoRequest.slot) hr
    rw [makeRequests_slot, List.mem_range'_1] at hms
    omega
  have hout : out i = applyAll (l.map (readPatch io d.pool)) (fun _ : Unit => buffer) () i :=
    congrFun (congrFun hd ()) i
  rw [hout]
  refine he.trans ?_
  rw [(io.allOk_iff _).mp hok r.slot hslot]
  simp only [Transfer.brings, Buf.shift, vbyte, hcell]

end Transfers

/-! ### `submit_entries` on a mapped request -/

theorem makeRequests_length (ws : List DiskId) (op : IoOpType) (slot cum : ℕ) (es : List IoMappingEntry) :
    (makeRequests ws op slot cum es).length = es.length := by
  have h := congrArg List.length (makeRequests_slot ws op slot cum es)
  rwa [List.length_map, List.length_range'] at h

theorem skips_none {n : ℕ} {es : List IoMappingEntry} (hdi : ∀ e ∈ es, e.diskIndex < n) : ∀ e ∈ es, skips n e = false := by
  intro e he
  exact decide_eq_false (Nat.not_le.mpr (hdi e he))

theorem pushedRequests_all {n : ℕ} {es : List IoMappingEntry} (hdi : ∀ e ∈ es, e.diskIndex < n) {rs : List IoRequest}
    (hlen : rs.length = es.length) : pushedRequests n es rs = rs := by
  have hkeep : ∀ x ∈ es.zip rs, (!skips n x.1) = true := by
    intro x hx
    rw [skips_none hdi x.1 (List.of_mem_zip hx).1]
    rfl
  rw [pushedRequests, List.filter_eq_self.mpr hkeep, List.map_snd_zip (Nat.le_of_eq hlen)]

/-- Without an entry to skip, every entry is a request and the event is set. -/
theorem submitEntries_pushed {v : StripeVolume} {ws : List DiskId} (hws : v.workerState = some ws)
    (hle : v.diskCount ≤ ws.length) {es : List IoMappingEntry} (hne : es ≠ []) (hn : es.length ≤ ioRingSize)
    (hdi : ∀ e ∈ es, e.diskIndex < v.diskCount) {io : IoEnv} (hev : io.event = true) (d : Disks) (buffer : Buf)
    (op : IoOpType) :
    submitEntries io d v es buffer op =
      let s := (io.order (makeRequests ws op 0 0 es)).foldl (performRequest io) ⟨d, buffer, false⟩
      some (!s.error, s.disks, s.buffer) := by
  have hno : ¬ (es.length > ioRingSize ∨ ∃ e ∈ es, e.diskIndex < v.diskCount ∧ ws.length ≤ e.diskIndex) := by
    rintro (hlt | ⟨e, he, hlt, hbeyond⟩) <;> omega
  have hany : es.any (skips v.diskCount) = false := List.any_eq_false.mpr fun e he => by rw [skips_none hdi e he]; decide
  have hlast : ¬ es.getLast?.any (skips v.diskCount) = true := by
    rw [List.getLast?_eq_some_getLast hne, Option.any_some, skips_none hdi _ (List.getLast_mem hne)]
    decide
  unfold submitEntries
  rw [if_neg hne, hws]
  simp only
  rw [if_neg (by rw [hev]; decide), if_neg hno, if_neg fun h => hlast h.1, hany,
    pushedRequests_all hdi (makeRequests_length ..)]

/-- An entry to skip makes the call fail, if it returns. -/
theorem submitEntries_skipped {v : StripeVolume} {es : List IoMappingEntry} {e : IoMappingEntry} (he : e ∈ es)
    (hbeyond : v.diskCount ≤ e.diskIndex) {io : IoEnv} {d d' : Disks} {buffer out : Buf} {op : IoOpType} {ok : Bool}
    (h : submitEntries io d v es buffer op = some (ok, d', out)) : ok = false := by
  have hany : es.any (skips v.diskCount) = true := List.any_eq_true.mpr ⟨e, he, decide_eq_true hbeyond⟩
  unfold submitEntries at h
  rw [if_neg (List.ne_nil_of_mem he), hany] at h
  split at h
  · exact ((Prod.mk.inj (Option.some.inj h)).1).symm
  split at h
  · exact ((Prod.mk.inj (Option.some.inj h)).1).symm
  split at h
  · cases h
  simp only at h
  split at h
  · cases h
  generalize pushedRequests v.diskCount es _ = reqs at h
  have hop : ∀ (l : List IoRequest) (s : IoState), s.error = true → (l.foldl (performRequest io) s).error = true := by
    intro l
    induction l with
    | nil => exact fun s hs => hs
    | cons r l ih =>
      intro s hs
      apply ih
      unfold performRequest
      split <;> first | exact hs | rfl
  have herr := hop (io.order reqs) ⟨d, buffer, true⟩ rfl
  rw [herr] at h
  exact ((Prod.mk.inj (Option.some.inj h)).1).symm

theorem memberList_length (v : StripeVolume) : (memberList v).length = v.diskCount := by
  rw [memberList, List.length_map, List.length_range]

theorem submitEntries_eq {v : StripeVolume} (h : Ready v) {es : List IoMappingEntry} (hne : es ≠ [])
    (hn : es.length ≤ ioRingSize) (hdi : ∀ e ∈ es, e.diskIndex < v.diskCount) (io : IoEnv)
    (d : Disks) (buffer : Buf) (op : IoOpType) :
    submitEntries io d v es buffer op =
      if io.event = false then some (false, d, buffer)
      else
        let s := (io.order (makeRequests (memberList v) op 0 0 es)).foldl (performRequest io)
          ⟨d, buffer, false⟩
        some (!s.error, s.disks, s.buffer) := by
  by_cases hev : io.event = false
  · unfold submitEntries
    rw [if_neg hne, h.workers]
    simp only
    rw [if_pos hev, if_pos hev]
  · rw [if_neg hev, submitEntries_pushed h.workers (Nat.le_of_eq (memberList_length v).symm) hne hn hdi
      (by simpa using hev)]

theorem submitEntries_write {v : StripeVolume} (h : Ready v) {vo stop : ℕ} {es : List IoMappingEntry}
    (hc : Covers (vcell v) vo (es.map (entryExtent v)) stop) (hne : es ≠ [])
    (hdi : ∀ e ∈ es, e.diskIndex < v.diskCount) (hs : stop ≤ v.virtualTotalBytes)
    (hn : es.length ≤ ioRingSize) (io : IoEnv) (hev : io.event = true) (d : Disks) (buffer : Buf) :
    ∃ d', submitEntries io d v es buffer .write = some (io.allOk es.length, d', buffer) ∧
      Wrote v io es.length d d' buffer vo stop := by
  have hp := io.perm (makeRequests (memberList v) .write 0 0 es)
  obtain ⟨h1, h2, h3⟩ := foldl_write io (io.order (makeRequests (memberList v) .write 0 0 es))
    ⟨d, buffer, false⟩ (fun r hr => makeRequests_op (hp.mem_iff.mp hr))
  rw [submitEntries_eq h hne hn hdi, if_neg (by rw [hev]; decide)]
  refine ⟨_, ?_, requests_write h.laid h.members hc hdi hs io d _ buffer _ hp h1⟩
  simp only [h2, h3, Bool.false_or, any_error io hp (makeRequests_slot ..), Bool.not_not]

theorem submitEntries_read {v : StripeVolume} (h : Ready v) {vo stop : ℕ} {es : List IoMappingEntry}
    (hc : Covers (vcell v) vo (es.map (entryExtent v)) stop) (hne : es ≠ [])
    (hdi : ∀ e ∈ es, e.diskIndex < v.diskCount) (hn : es.length ≤ ioRingSize) (io : IoEnv)
    (hev : io.event = true) (d : Disks) (buffer : Buf) :
    ∃ d' out, submitEntries io d v es buffer .read = some (io.allOk es.length, d', out) ∧
      d'.pool = d.pool ∧
      (io.allOk es.length = true → ∀ i < stop - vo, out i = vbyte v d (vo + i)) := by
  have hp := io.perm (makeRequests (memberList v) .read 0 0 es)
  obtain ⟨h1, h2, h3⟩ := foldl_read io (io.order (makeRequests (memberList v) .read 0 0 es))
    ⟨d, buffer, false⟩ (fun r hr => makeRequests_op (hp.mem_iff.mp hr))
  rw [submitEntries_eq h hne hn hdi, if_neg (by rw [hev]; decide)]
  refine ⟨_, _, ?_, h1, fun hok => requests_read hc hdi io d buffer _ _ hp h2 hok⟩
  simp only [h3, Bool.false_or, any_error io hp (makeRequests_slot ..), Bool.not_not]

/-! ### Volumes with the same layout -/

/-- The volumes agree on all that mapping and transfers read. -/
structure SameLayout (v w : StripeVolume) : Prop where
  disks : w.disks = v.disks
  diskCount : w.diskCount = v.diskCount
  stripeUnit : w.stripeUnit = v.stripeUnit
  phaseCount : w.phaseCount = v.phaseCount
  phases : w.phases = v.phases
  total : w.virtualTotalBytes = v.virtualTotalBytes
  raidLevel : w.raidLevel = v.raidLevel
  workers : w.workerState = v.workerState

theorem SameLayout.refl (v : StripeVolume) : SameLayout v v := ⟨rfl, rfl, rfl, rfl, rfl, rfl, rfl, rfl⟩

theorem SameLayout.trans {u v w : StripeVolume} (h : SameLayout u v) (g : SameLayout v w) :
    SameLayout u w :=
  ⟨g.disks.trans h.disks, g.diskCount.trans h.diskCount, g.stripeUnit.trans h.stripeUnit,
    g.phaseCount.trans h.phaseCount, g.phases.trans h.phases, g.total.trans h.total,
    g.raidLevel.trans h.raidLevel, g.workers.trans h.workers⟩

section Same
variable {v w : StripeVolume} (h : SameLayout v w)
include h

theorem SameLayout.mapSingleByte : mapSingleByte w = mapSingleByte v := by
  have hphases : ∀ vo n p, mapPhases w vo n p = mapPhases v vo n p := by
    intro vo n
    induction n with
    | zero => intro p; rfl
    | succ n ih => intro p; simp only [mapPhases, h.phases, h.stripeUnit, ih]
  funext vo
  unfold Stripe.mapSingleByte
  rw [h.total, h.phaseCount, hphases]

theorem SameLayout.mapLba : mapLba w = mapLba v := by
  have hchunk : ∀ vo di remaining, mapChunk w vo di remaining = mapChunk v vo di remaining := by
    intro vo di remaining
    have hphase : currentPhase w vo = currentPhase v vo := by
      unfold currentPhase
      rw [h.phases, h.phaseCount]
    unfold mapChunk
    rw [hphase, h.stripeUnit]
  have hloop : ∀ fuel vo remaining acc,
      mapLbaLoop w fuel vo remaining acc = mapLbaLoop v fuel vo remaining acc := by
    intro fuel
    induction fuel with
    | zero => intro vo remaining acc; rfl
    | succ fuel ih =>
      intro vo remaining acc
      simp only [mapLbaLoop, h.mapSingleByte, hchunk, ih]
  funext vo len
  simp only [Stripe.mapLba, h.total, hloop]

theorem SameLayout.diskAt : w.diskAt = v.diskAt := by
  funext i
  simp only [StripeVolume.diskAt, h.disks]

theorem SameLayout.vcell : vcell w = vcell v := by
  funext x
  simp only [Stripe.vcell, h.mapSingleByte, h.diskAt]

theorem SameLayout.vbyte (d : Disks) : vbyte w d = vbyte v d := by
  funext x
  simp only [Stripe.vbyte, h.vcell]

theorem SameLayout.submitEntries (io : IoEnv) (d : Disks) (es : List IoMappingEntry) (buffer : Buf)
    (op : IoOpType) : submitEntries io d w es buffer op = submitEntries io d v es buffer op := by
  simp only [Stripe.submitEntries, h.workers, h.diskCount]

theorem SameLayout.ready (hr : Ready v) : Ready w where
  laid := by
    have hl := hr.laid
    refine ⟨?_, ?_, ?_, ?_⟩
    · rw [h.stripeUnit]; exact hl.unit
    · rw [h.stripeUnit]; exact hl.unitLt
    · rw [h.phaseCount]; exact hl.count
    · rw [h.stripeUnit, h.diskCount, h.phaseCount, h.phases, h.total]; exact hl.phases
  members := by
    have hm := hr.members
    refine ⟨?_, ?_, ?_⟩
    · rw [h.diskCount]; exact hm.few
    · rw [h.diskCount, h.disks, h.diskAt]; exact hm.present
    · rw [h.diskCount, h.diskAt]; exact hm.distinct
  workers := by
    rw [h.workers, hr.workers]
    simp only [memberList, h.diskCount, h.diskAt]

end Same

end RaidTest.Stripe
