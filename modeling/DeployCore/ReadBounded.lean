import DeployCore.Counting

/-! # Reading a whole document under two limits (`src/content/json.rs`)

`readBounded` reads a source to its end into one vector, under the document's limit and what is left of a total. -/

namespace DeployCore

/-! ### What a source holds -/

section Source
variable {σ : Type} (answers : Answers σ)

/-- What a source that is asked again after every interruption answers in the end. -/
inductive SettlesTo (len : Nat) : σ → Except ReadError Bytes → σ → Prop
  | ok {source source' bytes} (h : answers source len = (.ok bytes, source')) : SettlesTo len source (.ok bytes) source'
  | error {source source' err} (h : answers source len = (.error err, source')) : SettlesTo len source (.error err) source'
  | retry {source source₁ source' reply} (h : answers source len = (.interrupted, source₁))
    (hretried : SettlesTo len source₁ reply source') : SettlesTo len source reply source'

/-- How a source goes on after the bytes it is said to hold; `more` says nothing. -/
inductive Ending
  | clean
  | fault (err : ReadError)
  | overlong
  | more

/-- The source holds these bytes, however it cuts them up: `size` is what it gives of a request. -/
inductive Streams : σ → Bytes → Ending → Prop
  | clean {source} (next : Nat → σ) (h : ∀ len, 0 < len → SettlesTo answers len source (.ok []) (next len)) :
    Streams source [] .clean
  | fault {source err} (next : Nat → σ) (h : ∀ len, 0 < len → SettlesTo answers len source (.error err) (next len)) :
    Streams source [] (.fault err)
  | overlong {source} (next : Nat → Bytes × σ)
    (h : ∀ len, 0 < len → len < (next len).1.length ∧ SettlesTo answers len source (.ok (next len).1) (next len).2) :
    Streams source [] .overlong
  | more {source} : Streams source [] .more
  | chunk {source content ending} (size : Nat → Nat) (next : Nat → σ)
    (hsize : ∀ len, 0 < len → 0 < size len ∧ size len ≤ len ∧ size len ≤ content.length)
    (h : ∀ len, 0 < len → SettlesTo answers len source (.ok (content.take (size len))) (next len))
    (hnext : ∀ len, 0 < len → Streams (next len) (content.drop (size len)) ending) : Streams source content ending

end Source

/-! ### The reader -/

/-- `io::ErrorKind::OutOfMemory`. -/
def OUT_OF_MEMORY : SourceErrorKind := .other 12

/-- The vector after a read of `chunk` into its last `k` bytes: grown by zeros, overwritten, cut off again. -/
def readInto (bytes : Bytes) (k : Nat) (chunk : Bytes) : Bytes :=
  let resized := bytes ++ List.replicate k 0
  let filled := resized.take bytes.length ++ chunk ++ resized.drop (bytes.length + chunk.length)
  filled.take (bytes.length + chunk.length)

theorem readInto_eq {bytes chunk : Bytes} {k : Nat} : readInto bytes k chunk = bytes ++ chunk := by
  rw [readInto, List.take_append_of_le_length le_rfl, List.take_length, ← List.length_append,
    List.take_append_of_le_length le_rfl, List.take_length]

section Read
variable {σ : Type} (reserve : Nat → Nat → Bool) (answers : Answers σ)

/-- Bytes one step of the loop makes room for. -/
def stepLen (copyBuffer : Nat) (reader : CountingReader σ) : Nat :=
  if reader.remaining = 0 then 1 else min copyBuffer reader.remaining

/-- The loop; `reserve` says whether a vector of so many bytes gets room for so many more. -/
def readBoundedFrom (copyBuffer : Nat) :
    Nat → CountingReader σ → Bytes → Option (Except ContentFault Bytes) × CountingReader σ
  | 0, reader, _ => (none, reader)
  | fuel + 1, reader, bytes =>
    let k := stepLen copyBuffer reader
    if !reserve bytes.length k then (some (.error (.io ⟨OUT_OF_MEMORY, none⟩)), reader)
    else
      let call := reader.read answers fuel k
      match call.outcome with
      | none => (none, call.reader)
      | some (.error fault) => (some (.error fault), call.reader)
      | some (.ok []) => (some (.ok (readInto bytes k [])), call.reader)
      | some (.ok (b :: chunk)) => readBoundedFrom copyBuffer fuel call.reader (readInto bytes k (b :: chunk))

/-- What the read came to, and the total it charged. -/
def readBounded (fuel : Nat) (source : σ) (document : ResourceLimit) (total : Budget) (copyBuffer : Nat) :
    Option (Except ContentFault Bytes) × Budget :=
  let (outcome, reader) := readBoundedFrom reserve answers (max copyBuffer 1) fuel
    (.ofSource source document [total] (max copyBuffer 1)) []
  (outcome, reader.shared.headD total)

end Read

/-! ### One read of a source that holds bytes -/

namespace CountingReader
variable {σ : Type} {answers : Answers σ} {r : CountingReader σ} {source' : σ} {len buf : Nat}

theorem readSource_settles {source : σ} {reply : Except ReadError Bytes} (h : SettlesTo answers len source reply source') :
    ∃ n, ∀ fuel ≥ n, ∃ requests,
      readSource answers fuel source len = (some (reply.mapError .fromIo), requests, source') := by
  have hsucc {fuel n : Nat} (hfuel : fuel ≥ n + 1) : ∃ m, fuel = m + 1 ∧ n ≤ m := ⟨fuel - 1, by omega, by omega⟩
  induction h with
  | ok h | error h =>
    refine ⟨1, fun fuel hfuel => ?_⟩
    obtain ⟨m, rfl, -⟩ := hsucc hfuel
    rw [readSource, h]
    exact ⟨_, rfl⟩
  | retry h _ ih =>
    obtain ⟨n, ih⟩ := ih
    refine ⟨n + 1, fun fuel hfuel => ?_⟩
    obtain ⟨m, rfl, hm⟩ := hsucc hfuel
    obtain ⟨requests, hrest⟩ := ih m hm
    rw [readSource, h]
    simp only [hrest]
    exact ⟨_, rfl⟩

/-- A call that has settled what its source answered. -/
def settledCall (r : CountingReader σ) (source' : σ) (requests : List Request) :
    Except ContentFault (Bytes × CountingReader σ) → Called σ
  | .error fault => ⟨some (.error fault), requests, { r with source := source', latch := r.latch.record fault }⟩
  | .ok (bytes, r) => ⟨some (.ok bytes), requests, r⟩

/-- What a reader that has not faulted makes of an answer. -/
theorem read_settles {reply : Except ReadError Bytes} {settled : Except ContentFault (Bytes × CountingReader σ)}
    (hlatch : r.latch = none) (hbuf : buf ≠ 0) (h : SettlesTo answers (r.requestLen buf) r.source reply source')
    (hsettled : (reply.mapError ContentFault.fromIo).bind (settle { r with source := source' } (r.requestLen buf)) = settled) :
    ∃ n, ∀ fuel ≥ n, ∃ requests, r.read answers fuel buf = settledCall r source' requests settled := by
  obtain ⟨n, hread⟩ := readSource_settles h
  refine ⟨n, fun fuel hfuel => ?_⟩
  obtain ⟨requests, hread⟩ := hread fuel hfuel
  have hcheck : r.latch.check = .ok () := by rw [hlatch]; rfl
  refine ⟨requests, ?_⟩
  rw [read, hcheck]
  simp only [if_neg hbuf, hread]
  subst hsettled
  cases reply with
  | error err => rfl
  | ok bytes =>
    show (match settle { r with source := source' } (r.requestLen buf) bytes with
      | .error fault => _
      | .ok (bytes, r) => _) = settledCall r source' requests (settle { r with source := source' } (r.requestLen buf) bytes)
    cases settle { r with source := source' } (r.requestLen buf) bytes <;> rfl

end CountingReader

/-! ### The whole read -/

section Bounded
variable {σ : Type} {reserve : Nat → Nat → Bool} {answers : Answers σ} {document : ResourceLimit} {total : Budget}
  {copyBuffer : Nat}

/-- What the two limits together allow. -/
def allowance (document : ResourceLimit) (total : Budget) : Nat :=
  min document.max total.remaining

/-- The fault of the limit that is reached first, the document's where both are. -/
def limitFault (document : ResourceLimit) (total : Budget) : ContentFault :=
  if document.max ≤ total.remaining then document.exceeded else total.exceeded

/-- The reader after `n` bytes, at a state of the source. -/
def readerAt (document : ResourceLimit) (total : Budget) (copyBuffer n : Nat) (source : σ) : CountingReader σ :=
  (CountingReader.ofSource source document [total] copyBuffer).after n

theorem remaining_ofLimit : (Budget.ofLimit document).remaining = document.max := Nat.sub_zero _

theorem remaining_readerAt {n : Nat} {source : σ} (hn : n ≤ allowance document total) :
    (readerAt document total copyBuffer n source).remaining = allowance document total - n := by
  obtain ⟨hdocument, htotal⟩ := le_min_iff.mp hn
  have hown : ((Budget.ofLimit document).after n).remaining = document.max - n := by
    rw [Budget.remaining_after (remaining_ofLimit.symm ▸ hdocument), remaining_ofLimit]
  have hmax : document.max - n ≤ U64_MAX := (Nat.sub_le _ _).trans document.max_le
  show min (min U64_MAX ((Budget.ofLimit document).after n).remaining) (total.after n).remaining = _
  rw [hown, Budget.remaining_after htotal, allowance, Nat.min_eq_right hmax, Nat.sub_min_sub_right]

theorem room_readerAt {n : Nat} {source : σ} (hn : n ≤ allowance document total) :
    (readerAt document total copyBuffer n source).position + (readerAt document total copyBuffer n source).remaining ≤
      U64_MAX := by
  have hmax := document.max_le
  have hallowance : allowance document total ≤ document.max := Nat.min_le_left _ _
  rw [remaining_readerAt hn]
  show 0 + n + _ ≤ _
  omega

theorem readerAt_after {n m : Nat} {source source' : σ} (hnm : n + m ≤ allowance document total) :
    ({ readerAt document total copyBuffer n source with source := source' } : CountingReader σ).after m =
      readerAt document total copyBuffer (n + m) source' := by
  obtain ⟨hdocument, htotal⟩ := le_min_iff.mp hnm
  have hown : ((Budget.ofLimit document).after n).after m = (Budget.ofLimit document).after (n + m) :=
    Budget.after_after (remaining_ofLimit.symm ▸ hdocument)
  have hshared : (total.after n).after m = total.after (n + m) := Budget.after_after htotal
  simp only [readerAt, CountingReader.after, CountingReader.ofSource, hown, List.map_cons, List.map_nil, hshared,
    Nat.add_assoc]

/-- The probe's fault: that of the first limit that is spent. -/
theorem settle_spent {n len : Nat} {source : σ} {bytes : Bytes} (hn : n = allowance document total) (hbytes : bytes ≠ []) :
    (readerAt document total copyBuffer n source).settle len bytes = .error (limitFault document total) := by
  have hspent : (readerAt document total copyBuffer n source).remaining = 0 := by
    rw [remaining_readerAt hn.le, hn, Nat.sub_self]
  have hempty : bytes.isEmpty = false := by simpa using hbytes
  obtain ⟨hdocument, htotal⟩ := le_min_iff.mp hn.le
  have hown : ((Budget.ofLimit document).after n).remaining = document.max - n := by
    rw [Budget.remaining_after (remaining_ofLimit.symm ▸ hdocument), remaining_ofLimit]
  have hcheck : (readerAt document total copyBuffer n source).checkAvailable 1 = .error (limitFault document total) := by
    have hshared : (total.after n).remaining = total.remaining - n := Budget.remaining_after htotal
    have hchain : (readerAt document total copyBuffer n source).chain = [(Budget.ofLimit document).after n, total.after n] :=
      rfl
    unfold allowance at hn
    rw [CountingReader.checkAvailable, hchain, limitFault]
    split_ifs with hle
    · rw [List.find?_cons_of_pos (by simp [hown]; omega)]
      rfl
    · rw [List.find?_cons_of_neg (by simp [hown]; omega), List.find?_cons_of_pos (by simp [hshared]; omega)]
      rfl
  rw [CountingReader.settle, if_pos hspent, hempty, if_neg Bool.false_ne_true, hcheck]

theorem settle_chunk {n len : Nat} {source : σ} {bytes : Bytes} (hn : n < allowance document total)
    (hlen : bytes.length ≤ len) (hfits : n + bytes.length ≤ allowance document total) :
    (readerAt document total copyBuffer n source).settle len bytes =
      .ok (bytes, readerAt document total copyBuffer (n + bytes.length) source) := by
  have hremaining := @remaining_readerAt _ _ _ copyBuffer _ source hn.le
  have hroom := @room_readerAt _ _ _ copyBuffer _ source hn.le
  have hdeliver : (readerAt document total copyBuffer n source).deliver bytes =
      .ok (readerAt document total copyBuffer (n + bytes.length) source) := by
    rw [CountingReader.deliver_eq (by omega) (by omega)]
    exact congrArg _ (readerAt_after hfits)
  rw [CountingReader.settle, if_neg (by omega), if_neg (Nat.not_lt.mpr hlen), hdeliver]
  rfl

theorem settle_end {n len : Nat} {source : σ} (hn : n ≤ allowance document total) :
    (readerAt document total copyBuffer n source).settle len [] = .ok ([], readerAt document total copyBuffer n source) := by
  rcases hn.eq_or_lt with hn | hn
  · rw [CountingReader.settle, if_pos (by rw [remaining_readerAt hn.le, hn, Nat.sub_self])]
    rfl
  · exact settle_chunk hn (Nat.zero_le _) hn.le

theorem settle_overlong {n len : Nat} {source : σ} {bytes : Bytes} (hn : n ≤ allowance document total)
    (hlen : len < bytes.length) :
    (readerAt document total copyBuffer n source).settle len bytes =
      .error (if n = allowance document total then limitFault document total else CountingReader.invalidData) := by
  split_ifs with hspent
  · exact settle_spent hspent (List.ne_nil_of_length_pos (Nat.zero_lt_of_lt hlen))
  · rw [CountingReader.settle, if_neg (by rw [remaining_readerAt hn]; omega), if_pos hlen]

/-- The request a step comes to is the room it made. -/
theorem requestLen_readerAt {n : Nat} {source : σ} (hn : n ≤ allowance document total) :
    (readerAt document total (max copyBuffer 1) n source).requestLen
        (stepLen (max copyBuffer 1) (readerAt document total (max copyBuffer 1) n source)) =
      stepLen (max copyBuffer 1) (readerAt document total (max copyBuffer 1) n source) := by
  have hbuffer : (readerAt document total (max copyBuffer 1) n source).copyBuffer = max copyBuffer 1 :=
    Nat.max_eq_left (Nat.le_max_right _ _)
  rw [CountingReader.requestLen, hbuffer, stepLen, remaining_readerAt hn]
  split_ifs <;> omega

theorem stepLen_pos (reader : CountingReader σ) : 0 < stepLen (max copyBuffer 1) reader := by
  rw [stepLen]
  split_ifs <;> omega

theorem stepLen_le (reader : CountingReader σ) : stepLen (max copyBuffer 1) reader ≤ max copyBuffer 1 := by
  rw [stepLen]
  split_ifs <;> omega

/-- What the read comes to, with `bytes` read already. -/
def boundedOutcome (document : ResourceLimit) (total : Budget) (bytes content : Bytes) (ending : Ending) :
    Except ContentFault Bytes :=
  if allowance document total < bytes.length + content.length then .error (limitFault document total)
  else
    match ending with
    | .clean => .ok (bytes ++ content)
    | .fault err => .error (.fromIo err)
    | .overlong =>
      if bytes.length + content.length = allowance document total then .error (limitFault document total)
      else .error CountingReader.invalidData
    | .more => .error (limitFault document total)

/-- How the loop goes on when a call has settled. -/
def goOn (reserve : Nat → Nat → Bool) (answers : Answers σ) (copyBuffer fuel : Nat) (bytes : Bytes)
    (faulted : ContentFault → CountingReader σ) :
    Except ContentFault (Bytes × CountingReader σ) → Option (Except ContentFault Bytes) × CountingReader σ
  | .error fault => (some (.error fault), faulted fault)
  | .ok ([], reader) => (some (.ok bytes), reader)
  | .ok (b :: chunk, reader) => readBoundedFrom reserve answers copyBuffer fuel reader (bytes ++ b :: chunk)

/-- One step of the loop, whatever the source answers. -/
theorem readBoundedFrom_settles {source source' : σ} {reply : Except ReadError Bytes} {bytes : Bytes} {k : Nat}
    {settled : Except ContentFault (Bytes × CountingReader σ)} (hbytes : bytes.length ≤ allowance document total)
    (hk : stepLen (max copyBuffer 1) (readerAt document total (max copyBuffer 1) bytes.length source) = k)
    (hreserved : reserve bytes.length k = true) (h : SettlesTo answers k source reply source')
    (hsettled : (reply.mapError ContentFault.fromIo).bind
      ((readerAt document total (max copyBuffer 1) bytes.length source').settle k) = settled) :
    ∃ n, ∀ fuel ≥ n, readBoundedFrom reserve answers (max copyBuffer 1) (fuel + 1)
        (readerAt document total (max copyBuffer 1) bytes.length source) bytes =
      goOn reserve answers (max copyBuffer 1) fuel bytes (fun fault =>
        { readerAt document total (max copyBuffer 1) bytes.length source' with latch := some fault.replay }) settled := by
  have hrequest := @requestLen_readerAt _ _ _ copyBuffer _ source hbytes
  have hpos : k ≠ 0 := by
    rw [← hk]
    exact (stepLen_pos _).ne'
  rw [hk] at hrequest
  obtain ⟨n, hread⟩ := @CountingReader.read_settles _ answers
    (readerAt document total (max copyBuffer 1) bytes.length source) source' k reply settled rfl hpos
    (by rw [hrequest]; exact h) (by rw [hrequest]; exact hsettled)
  refine ⟨n, fun fuel hfuel => ?_⟩
  obtain ⟨requests, hread⟩ := hread fuel hfuel
  rw [readBoundedFrom]
  simp only [hk, hreserved, Bool.not_true, Bool.false_eq_true, if_false, hread]
  rcases settled with fault | ⟨_ | ⟨b, chunk⟩, reader⟩
  · rfl
  · simp only [CountingReader.settledCall, readInto_eq, List.append_nil, goOn]
  · simp only [CountingReader.settledCall, readInto_eq, goOn]

theorem boundedOutcome_append {bytes chunk rest : Bytes} {ending : Ending} :
    boundedOutcome document total (bytes ++ chunk) rest ending = boundedOutcome document total bytes (chunk ++ rest) ending := by
  simp only [boundedOutcome, List.length_append, List.append_assoc, Nat.add_assoc]

theorem boundedOutcome_ok {bytes content out : Bytes} {ending : Ending} :
    boundedOutcome document total bytes content ending = .ok out ↔
      out = bytes ++ content ∧ ending = .clean ∧ bytes.length + content.length ≤ allowance document total := by
  by_cases hover : allowance document total < bytes.length + content.length
  · simp [boundedOutcome, hover]
  have hfits := Nat.not_lt.mp hover
  cases ending with
  | clean =>
    rw [boundedOutcome, if_neg hover, Except.ok.injEq]
    exact ⟨fun h => ⟨h.symm, rfl, hfits⟩, fun h => h.1.symm⟩
  | fault | more => simp [boundedOutcome, hover]
  | overlong =>
    simp only [boundedOutcome, if_neg hover]
    split_ifs <;> simp

theorem readBoundedFrom_streams {source : σ} {content : Bytes} {ending : Ending} (h : Streams answers source content ending)
    (hreserve : ∀ len k, len ≤ allowance document total → k ≤ max copyBuffer 1 → reserve len k = true) :
    ∀ bytes : Bytes, bytes.length ≤ allowance document total →
      (ending = .more → allowance document total < bytes.length + content.length) →
      ∃ n, ∀ fuel ≥ n, ∃ reader,
        readBoundedFrom reserve answers (max copyBuffer 1) fuel
          (readerAt document total (max copyBuffer 1) bytes.length source) bytes =
            (some (boundedOutcome document total bytes content ending), reader) ∧
          reader.shared = [total.after (min (bytes.length + content.length) (allowance document total))] := by
  have hsucc {fuel n : Nat} (hfuel : fuel ≥ n + 1) : ∃ m, fuel = m + 1 ∧ n ≤ m := ⟨fuel - 1, by omega, by omega⟩
  have hreserved {bytes : Bytes} {reader : CountingReader σ} (hbytes : bytes.length ≤ allowance document total) :
      reserve bytes.length (stepLen (max copyBuffer 1) reader) = true := hreserve _ _ hbytes (stepLen_le _)
  induction h with
  | clean next hclean =>
    intro bytes hbytes _
    obtain ⟨n, hrun⟩ := readBoundedFrom_settles hbytes rfl (hreserved hbytes) (hclean _ (stepLen_pos _)) (settle_end hbytes)
    refine ⟨n + 1, fun fuel hfuel => ?_⟩
    obtain ⟨m, rfl, hm⟩ := hsucc hfuel
    rw [hrun m hm, goOn, boundedOutcome, List.length_nil, Nat.add_zero, if_neg (Nat.not_lt.mpr hbytes),
      Nat.min_eq_left hbytes, List.append_nil]
    exact ⟨_, rfl, rfl⟩
  | @fault _ err next hfault =>
    intro bytes hbytes _
    obtain ⟨n, hrun⟩ := readBoundedFrom_settles hbytes rfl (hreserved hbytes) (hfault _ (stepLen_pos _)) rfl
    refine ⟨n + 1, fun fuel hfuel => ?_⟩
    obtain ⟨m, rfl, hm⟩ := hsucc hfuel
    rw [hrun m hm, boundedOutcome, List.length_nil, Nat.add_zero, if_neg (Nat.not_lt.mpr hbytes), Nat.min_eq_left hbytes]
    exact ⟨_, rfl, rfl⟩
  | overlong next hover =>
    intro bytes hbytes _
    obtain ⟨hlen, hsettles⟩ := hover _ (@stepLen_pos _ copyBuffer _)
    obtain ⟨n, hrun⟩ := readBoundedFrom_settles hbytes rfl (hreserved hbytes) hsettles
      (settle_overlong hbytes hlen)
    refine ⟨n + 1, fun fuel hfuel => ?_⟩
    obtain ⟨m, rfl, hm⟩ := hsucc hfuel
    rw [hrun m hm, goOn, boundedOutcome, List.length_nil, Nat.add_zero, if_neg (Nat.not_lt.mpr hbytes),
      Nat.min_eq_left hbytes]
    split_ifs <;> exact ⟨_, rfl, rfl⟩
  | more =>
    intro bytes hbytes hmore
    have hlt := hmore rfl
    rw [List.length_nil] at hlt
    omega
  | @chunk source content ending size next hsize hchunk hnext ih =>
    intro bytes hbytes hmore
    obtain ⟨k, hk⟩ : ∃ k, stepLen (max copyBuffer 1) (readerAt document total (max copyBuffer 1) bytes.length source) = k :=
      ⟨_, rfl⟩
    have hkpos : 0 < k := hk ▸ stepLen_pos _
    obtain ⟨hpos, hle, hcontent⟩ := hsize k hkpos
    have hsettles := hchunk k hkpos
    have hlen : (content.take (size k)).length = size k := List.length_take_of_le hcontent
    obtain ⟨b, chunk, hcons⟩ := List.exists_cons_of_length_pos (hlen ▸ hpos)
    rcases hbytes.eq_or_lt with hspent | hroom
    · -- the allowance is spent, and the probe brings a byte
      obtain ⟨n, hrun⟩ := readBoundedFrom_settles hbytes hk (hk ▸ hreserved hbytes) hsettles
        (settle_spent hspent (hcons ▸ List.cons_ne_nil b chunk))
      refine ⟨n + 1, fun fuel hfuel => ?_⟩
      obtain ⟨m, rfl, hm⟩ := hsucc hfuel
      have hover : boundedOutcome document total bytes content ending = .error (limitFault document total) :=
        if_pos (by omega)
      rw [hrun m hm, goOn, hover, Nat.min_eq_right (by omega)]
      exact ⟨_, rfl, hspent ▸ rfl⟩
    · have hfits : bytes.length + size k ≤ allowance document total := by
        rw [stepLen, remaining_readerAt hbytes, if_neg (by omega)] at hk
        omega
      have hsettled : (readerAt document total (max copyBuffer 1) bytes.length (next k)).settle k (content.take (size k)) =
          .ok (content.take (size k), readerAt document total (max copyBuffer 1)
            (bytes.length + (content.take (size k)).length) (next k)) :=
        settle_chunk hroom (hlen.symm ▸ hle) (hlen.symm ▸ hfits)
      obtain ⟨n, hrun⟩ := readBoundedFrom_settles hbytes hk (hk ▸ hreserved hbytes) hsettles hsettled
      have hsplit : content = content.take (size k) ++ content.drop (size k) := (List.take_append_drop _ _).symm
      have hlength : bytes.length + content.length =
          (bytes ++ content.take (size k)).length + (content.drop (size k)).length := by
        rw [List.length_append, hlen, List.length_drop]
        exact (Nat.add_sub_cancel' hcontent ▸ (Nat.add_assoc ..).symm :)
      obtain ⟨n', ih⟩ := ih k hkpos (bytes ++ content.take (size k)) (by rw [List.length_append, hlen]; exact hfits)
        (fun heq => hlength ▸ hmore heq)
      refine ⟨max n n' + 1, fun fuel hfuel => ?_⟩
      obtain ⟨m, rfl, hm⟩ := hsucc hfuel
      obtain ⟨reader, hrest, hshared⟩ := ih m ((Nat.le_max_right _ _).trans hm)
      refine ⟨reader, (hrun m ((Nat.le_max_left _ _).trans hm)).trans ?_, hlength ▸ hshared⟩
      rw [hcons]
      show readBoundedFrom _ _ _ _ _ (bytes ++ b :: chunk) = _
      rw [← hcons, ← List.length_append, hrest, boundedOutcome_append, ← hsplit]

/-- For every source and every way it cuts up what it holds: the read gives exactly the source's bytes if and only if
the source ends without a fault within both limits, and reports the limit that is reached first otherwise; the total is
charged by what was read. An endless source holds every beginning of what it gives. -/
theorem readBounded_streams {source : σ} {content : Bytes} {ending : Ending} (h : Streams answers source content ending)
    (hmore : ending = .more → min document.max total.remaining < content.length)
    (hreserve : ∀ len k, len ≤ min document.max total.remaining → k ≤ max copyBuffer 1 → reserve len k = true) :
    ∃ n, ∀ fuel ≥ n, ∃ result charged,
      readBounded reserve answers fuel source document total copyBuffer = (some result, charged) ∧
      charged.resource = total.resource ∧ charged.limit = total.limit ∧
      (∀ bytes, result = .ok bytes ↔
        bytes = content ∧ ending = .clean ∧ content.length ≤ document.max ∧ content.length ≤ total.remaining) ∧
      (∀ bytes, result = .ok bytes → charged.used = total.used + bytes.length) ∧
      (min document.max total.remaining < content.length →
        result = .error (if document.max ≤ total.remaining then document.exceeded else total.exceeded) ∧
        charged.used = total.used + min document.max total.remaining) ∧
      (content.length ≤ min document.max total.remaining → charged.used = total.used + content.length ∧
        ∀ err, ending = .fault err → result = .error (.fromIo err)) := by
  obtain ⟨n, hrun⟩ := readBoundedFrom_streams h hreserve [] (Nat.zero_le _)
    (fun heq => by rw [List.length_nil, Nat.zero_add]; exact hmore heq)
  refine ⟨n, fun fuel hfuel => ?_⟩
  obtain ⟨reader, hread, hshared⟩ := hrun fuel hfuel
  rw [List.length_nil, Nat.zero_add] at hshared
  have hstart : readerAt document total (max copyBuffer 1) ([] : Bytes).length source =
      .ofSource source document [total] (max copyBuffer 1) := CountingReader.after_zero
  rw [hstart] at hread
  have hused : (total.after (min content.length (allowance document total))).used =
      total.used + min content.length (allowance document total) :=
    Budget.used_after ((Nat.min_le_right _ _).trans (Nat.min_le_right _ _))
  have hcharged : readBounded reserve answers fuel source document total copyBuffer =
      (some (boundedOutcome document total [] content ending), total.after (min content.length (allowance document total))) := by
    rw [readBounded, hread]
    show (_, reader.shared.headD total) = _
    rw [hshared]
    rfl
  refine ⟨_, _, hcharged, rfl, rfl, fun bytes => ?_, fun bytes hok => ?_, fun hover => ?_, fun hfits => ?_⟩
  · rw [boundedOutcome_ok, List.nil_append, List.length_nil, Nat.zero_add, allowance, le_min_iff]
  · rw [boundedOutcome_ok, List.nil_append, List.length_nil, Nat.zero_add] at hok
    obtain ⟨rfl, -, hfits⟩ := hok
    rw [hused, Nat.min_eq_left hfits]
  · have hlimit : boundedOutcome document total [] content ending = .error (limitFault document total) :=
      if_pos (by rw [List.length_nil, Nat.zero_add]; exact hover)
    exact ⟨hlimit, hused.trans (congrArg _ (Nat.min_eq_right (Nat.le_of_lt hover)))⟩
  · refine ⟨hused.trans (congrArg _ (Nat.min_eq_left hfits)), ?_⟩
    rintro err rfl
    exact if_neg (by rw [List.length_nil, Nat.zero_add]; exact Nat.not_lt.mpr hfits)

/-- A source of two bytes that come one by one, the second after an interruption. -/
def twoBytes : Answers (List Reply)
  | [], _ => (.ok [], [])
  | reply :: replies, _ => (reply, replies)

theorem streams_twoBytes : Streams twoBytes [.ok [1], .interrupted, .ok [2]] [1, 2] .clean := by
  refine .chunk (fun _ => 1) (fun _ => [.interrupted, .ok [2]]) (fun len hlen => ⟨by decide, hlen, by decide⟩)
    (fun _ _ => .ok rfl) fun _ _ => ?_
  refine .chunk (fun _ => 1) (fun _ => []) (fun len hlen => ⟨by decide, hlen, by decide⟩) (fun _ _ => .retry rfl (.ok rfl))
    fun _ _ => ?_
  exact .clean (fun _ => []) fun _ _ => .ok rfl

/-- A document limit of two admits it, and one of a single byte is reported with what was read charged. -/
theorem readBounded_twoBytes :
    (∃ fuel charged, readBounded (fun _ _ => true) twoBytes fuel [.ok [1], .interrupted, .ok [2]]
      ⟨.configJson, 2, by decide⟩ (.ofLimit ⟨.imageJsonTotal, 3, by decide⟩) 7 = (some (.ok [1, 2]), charged) ∧
        charged.used = 2) ∧
    ∃ fuel charged, readBounded (fun _ _ => true) twoBytes fuel [.ok [1], .interrupted, .ok [2]]
      ⟨.configJson, 1, by decide⟩ (.ofLimit ⟨.imageJsonTotal, 3, by decide⟩) 7 =
        (some (.error (.limitExceeded .configJson 1)), charged) ∧ charged.used = 1 := by
  constructor
  · obtain ⟨n, hrun⟩ := @readBounded_streams _ (fun _ _ => true) _ ⟨.configJson, 2, by decide⟩
      (.ofLimit ⟨.imageJsonTotal, 3, by decide⟩) 7 _ _ _ streams_twoBytes nofun (fun _ _ _ _ => rfl)
    obtain ⟨result, charged, hread, -, -, hok, hcharge, -⟩ := hrun n le_rfl
    have hresult := (hok [1, 2]).mpr ⟨rfl, rfl, by decide, by decide⟩
    exact ⟨n, charged, hresult ▸ hread, hcharge _ hresult⟩
  · obtain ⟨n, hrun⟩ := @readBounded_streams _ (fun _ _ => true) _ ⟨.configJson, 1, by decide⟩
      (.ofLimit ⟨.imageJsonTotal, 3, by decide⟩) 7 _ _ _ streams_twoBytes nofun (fun _ _ _ _ => rfl)
    obtain ⟨result, charged, hread, -, -, -, -, hover, -⟩ := hrun n le_rfl
    obtain ⟨hresult, hused⟩ := hover (by decide)
    exact ⟨n, charged, hresult ▸ hread, hused⟩

end Bounded

end DeployCore
