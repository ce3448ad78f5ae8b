import AcsNext.Collector.ControlMessages
import AcsNext.Collector.ProcfsScraper
import AcsNext.Data.CString

/-! The lines of `net/tcp` and `net/tcp6`: how they are parsed on a little-endian host, and what
the steps of the parser read of fields and of hexadecimal bytes. A pointer `p` is the list of the
bytes from it up to `endp`. -/
namespace AcsNext.Collector

open AcsNext.Data

def skipField : List UInt8 → List UInt8
  | [] => []
  | b :: p => if b = 0 || isSpace b then b :: p else skipField p

/-- Over the blanks, of which the first may be any byte. The loop ends at `endp` whatever it sees
there. -/
def skipBlanks : List UInt8 → List UInt8
  | [] => []
  | b :: p =>
    if b = 0 then b :: p
    else
      match p with
      | [] => []
      | c :: _ => if isSpace c then skipBlanks p else p

/-- The next field; `none` is a null pointer. -/
def nextfield (p : List UInt8) : Option (List UInt8) :=
  match skipBlanks (skipField p) with
  | [] => none
  | b :: p => if b = 0 then none else some (b :: p)

def repNextfield : ℕ → List UInt8 → Option (List UInt8)
  | 0, p => some p
  | n + 1, p => nextfield p >>= repNextfield n

def isHexChar (c : UInt8) : Bool := isDigit c || (65 ≤ c && c ≤ 70)

def hexCharToVal (c : UInt8) : UInt8 := if isDigit c then c - 48 else 10 + (c - 65)

/-- `std::reverse` of the last `size` bytes. -/
def reverseLast (size : ℕ) (buf : List UInt8) : List UInt8 :=
  buf.take (buf.length - size) ++ (buf.drop (buf.length - size)).reverse

/-- The loop of `readHexBytes` with `numBytes` rounds left; it stops two bytes before `endp`. -/
def readHexLoop (chunkSize : ℕ) (reverse : Bool) :
    ℕ → ℕ → List UInt8 → List UInt8 → List UInt8
  | 0, _, _, buf => buf
  | numBytes + 1, i, p, buf =>
    match p with
    | high :: low :: next :: p =>
      if !isHexChar high || !isHexChar low then buf
      else
        let buf := buf ++ [hexCharToVal high <<< 4 ||| hexCharToVal low]
        let buf := if reverse && i % chunkSize == chunkSize - 1 then reverseLast chunkSize buf else buf
        readHexLoop chunkSize reverse numBytes (i + 1) (next :: p) buf
    | _ => buf

/-- The bytes that are written to the buffer; their number is what the source returns. -/
def readHexBytes (p : List UInt8) (chunkSize numChunks : ℕ) (reverse : Bool) : List UInt8 :=
  readHexLoop chunkSize reverse (chunkSize * numChunks) 0 p []

/-- Whether `htons` swaps, as it does on a little-endian host. -/
def needsByteorderSwap : Bool := true

/-- Two bytes of memory, the first one least significant. -/
def word16 (bytes : List (BitVec 8)) : BitVec 16 := bytes.getD 1 0 ++ bytes.getD 0 0

def kMaxLen : ℕ := 16

theorem raw_ofAddress (address : Address) (port : BitVec 16) :
    (Endpoint.ofAddress address port).Raw := rfl

def parseEndpoint (p : List UInt8) (family : Family) :
    Option ({endpoint : Endpoint // endpoint.Raw} × List UInt8) :=
  let addr := readHexBytes p 4 (family.length / 4) needsByteorderSwap
  if addr.length ≠ family.length then none
  else
    let addrData := addr.map UInt8.toBitVec ++ List.replicate (kMaxLen - addr.length) 0
    match p.drop (addr.length * 2) with
    | [] => none
    | c :: p =>
      if c ≠ 58 then none
      else
        let port := readHexBytes p 2 1 needsByteorderSwap
        if port.length ≠ 2 then none
        else
          let address := .ofMemory family addrData
          some (⟨.ofAddress address (word16 (port.map UInt8.toBitVec)), raw_ofAddress _ _⟩,
            p.drop (port.length * 2))

/-- There is no result for a line that is skipped, nor where the source would read past `endp`. -/
def parseConnLine (p : List UInt8) (family : Family) : Option ConnLineData := do
  let p ← nextfield (p.dropWhile isSpace)
  let (localEp, p) ← parseEndpoint p family
  let p ← nextfield p
  let (remote, p) ← parseEndpoint p family
  let p ← nextfield p
  let [state] := readHexBytes p 1 1 false | none
  let p ← repNextfield 6 (p.drop 2)
  let (inode, parseEndp) := strtoumax p
  match parseEndp with
  | [] => none
  | b :: _ =>
    if b ≠ 0 && !isSpace b then none
    else some ⟨localEp, remote, state.toBitVec, inode, localEp.property⟩

def InField (b : UInt8) : Prop := b ≠ 0 ∧ isSpace b = false

instance : DecidablePred InField := fun b => inferInstanceAs (Decidable (b ≠ 0 ∧ isSpace b = false))

theorem ne_zero_of_isSpace {b : UInt8} (h : isSpace b = true) : b ≠ 0 := by
  rintro rfl
  exact absurd h (by decide)

theorem skipField_append {field : List UInt8} (hfield : ∀ b ∈ field, InField b) (p : List UInt8) :
    skipField (field ++ p) = skipField p := by
  induction field with
  | nil => rfl
  | cons b field ih =>
    obtain ⟨hzero, hspace⟩ := hfield b List.mem_cons_self
    rw [List.cons_append, skipField, if_neg (by simp [hzero, hspace])]
    exact ih fun c hc => hfield c (List.mem_cons_of_mem b hc)

theorem skipBlanks_append {blanks : List UInt8} (hne : blanks ≠ [])
    (hblanks : ∀ b ∈ blanks, isSpace b = true) {b : UInt8} (hb : InField b) (p : List UInt8) :
    skipBlanks (blanks ++ b :: p) = b :: p := by
  induction blanks with
  | nil => exact absurd rfl hne
  | cons c blanks ih =>
    have hzero := ne_zero_of_isSpace (hblanks c List.mem_cons_self)
    cases blanks with
    | nil =>
      rw [List.singleton_append, skipBlanks, if_neg hzero]
      simp [hb.2]
    | cons d blanks =>
      have hd := hblanks d (List.mem_cons_of_mem c List.mem_cons_self)
      rw [List.cons_append, List.cons_append, skipBlanks, if_neg hzero]
      simp only [hd, if_true]
      exact ih (List.cons_ne_nil _ _) fun x hx => hblanks x (List.mem_cons_of_mem c hx)

theorem nextfield_append {field blanks : List UInt8} (hfield : ∀ b ∈ field, InField b)
    (hne : blanks ≠ []) (hblanks : ∀ b ∈ blanks, isSpace b = true) {b : UInt8} (hb : InField b)
    (p : List UInt8) : nextfield (field ++ blanks ++ b :: p) = some (b :: p) := by
  have hskip : skipField (blanks ++ b :: p) = blanks ++ b :: p := by
    obtain ⟨c, blanks, rfl⟩ := List.exists_cons_of_ne_nil hne
    rw [List.cons_append, skipField, if_pos]
    rw [hblanks c List.mem_cons_self, Bool.or_true]
  unfold nextfield
  rw [List.append_assoc, skipField_append hfield, hskip, skipBlanks_append hne hblanks hb]
  simp only [if_neg hb.1]

def hexPair (b : UInt8) : List UInt8 := [upperHexDigit (b.toNat / 16), upperHexDigit (b.toNat % 16)]

theorem hexChar_upperHexDigit {d : ℕ} (h : d < 16) :
    isHexChar (upperHexDigit d) = true ∧ hexCharToVal (upperHexDigit d) = UInt8.ofNat d := by
  interval_cases d <;> decide

theorem hexCharToVal_hexPair (b : UInt8) :
    hexCharToVal (upperHexDigit (b.toNat / 16)) <<< 4 |||
      hexCharToVal (upperHexDigit (b.toNat % 16)) = b := by
  have hb := b.toNat_lt
  have hbyte : ∀ n : Fin 256, UInt8.ofNat (n / 16) <<< 4 ||| UInt8.ofNat (n % 16) =
      UInt8.ofNat n := by
    decide +kernel
  rw [(hexChar_upperHexDigit (by omega)).2, (hexChar_upperHexDigit (by omega)).2]
  exact (hbyte ⟨b.toNat, hb⟩).trans (UInt8.ofNat_toNat)

theorem reverseLast_append (buf chunk : List UInt8) :
    reverseLast chunk.length (buf ++ chunk) = buf ++ chunk.reverse := by
  unfold reverseLast
  rw [List.length_append, Nat.add_sub_cancel, List.take_left, List.drop_left]

section Chunks

variable (chunkSize : ℕ) (reverse : Bool)

theorem readHexLoop_byte (numBytes i : ℕ) (b : UInt8) {p : List UInt8} (hp : p ≠ [])
    (buf : List UInt8) :
    readHexLoop chunkSize reverse (numBytes + 1) i (hexPair b ++ p) buf =
      readHexLoop chunkSize reverse numBytes (i + 1) p
        (if reverse && i % chunkSize == chunkSize - 1 then reverseLast chunkSize (buf ++ [b])
          else buf ++ [b]) := by
  have hb := b.toNat_lt
  obtain ⟨next, p, rfl⟩ := List.exists_cons_of_ne_nil hp
  have hhigh := (hexChar_upperHexDigit (show b.toNat / 16 < 16 by omega)).1
  have hlow := (hexChar_upperHexDigit (show b.toNat % 16 < 16 by omega)).1
  rw [hexPair, List.cons_append, List.singleton_append, readHexLoop]
  simp only [hhigh, hlow, hexCharToVal_hexPair]
  rfl

theorem readHexLoop_bytes (bytes : List UInt8) (numBytes i : ℕ) {p : List UInt8} (hp : p ≠ [])
    (buf : List UInt8)
    (hinside : ∀ j < bytes.length, (reverse && (i + j) % chunkSize == chunkSize - 1) = false) :
    readHexLoop chunkSize reverse (bytes.length + numBytes) i (bytes.flatMap hexPair ++ p) buf =
      readHexLoop chunkSize reverse numBytes (i + bytes.length) p (buf ++ bytes) := by
  induction bytes generalizing i buf with
  | nil => simp
  | cons b bytes ih =>
    have hrest : bytes.flatMap hexPair ++ p ≠ [] := by simp [hp]
    have hfirst := hinside 0 (by simp)
    rw [Nat.add_zero] at hfirst
    rw [List.length_cons, Nat.add_right_comm, List.flatMap_cons, List.append_assoc,
      readHexLoop_byte _ _ _ _ _ hrest, hfirst, if_neg Bool.false_ne_true, ih]
    · rw [List.append_assoc, List.singleton_append, Nat.add_assoc, Nat.add_comm 1]
    · intro j hj
      rw [Nat.add_assoc, Nat.add_comm 1]
      exact hinside (j + 1) (by simpa using hj)

def chunkOrder (chunk : List UInt8) : List UInt8 := if reverse then chunk.reverse else chunk

variable {chunkSize}

theorem readHexLoop_chunk {chunk : List UInt8} (hlength : chunk.length = chunkSize)
    (hpos : 0 < chunkSize) (numBytes : ℕ) {i : ℕ} (hi : i % chunkSize = 0) {p : List UInt8}
    (hp : p ≠ []) (buf : List UInt8) :
    readHexLoop chunkSize reverse (chunkSize + numBytes) i (chunk.flatMap hexPair ++ p) buf =
      readHexLoop chunkSize reverse numBytes (i + chunkSize) p (buf ++ chunkOrder reverse chunk) := by
  cases reverse with
  | false =>
    rw [← hlength]
    exact readHexLoop_bytes _ false chunk numBytes i hp buf fun _ _ => rfl
  | true =>
    -- only the last byte of the chunk ends it
    obtain ⟨init, b, rfl⟩ : ∃ init b, chunk = init ++ [b] :=
      ⟨_, _, (List.dropLast_append_getLast (List.ne_nil_of_length_pos (hlength ▸ hpos))).symm⟩
    have hsize : init.length + 1 = chunkSize := by simpa using hlength
    have hindex {j : ℕ} (hj : j < chunkSize) : (i + j) % chunkSize = j := by
      rw [Nat.add_mod, hi, Nat.zero_add, Nat.mod_mod, Nat.mod_eq_of_lt hj]
    have hinside : ∀ j < init.length, (true && (i + j) % chunkSize == chunkSize - 1) = false := by
      intro j hj
      rw [hindex (by omega), Bool.true_and, beq_eq_false_iff_ne]
      omega
    have hlast : (true && (i + init.length) % chunkSize == chunkSize - 1) = true := by
      rw [hindex (by omega), Bool.true_and, beq_iff_eq]
      omega
    have hcount : chunkSize + numBytes = init.length + (numBytes + 1) := by omega
    rw [hcount, List.flatMap_append, List.append_assoc,
      readHexLoop_bytes _ true init _ i (by simp [hexPair]) buf hinside, List.flatMap_singleton,
      readHexLoop_byte _ _ _ _ _ hp, hlast, if_pos rfl, List.append_assoc, ← hlength,
      reverseLast_append, Nat.add_assoc, List.length_append, List.length_singleton]
    rfl

theorem readHexLoop_chunks {chunks : List (List UInt8)}
    (hlength : ∀ chunk ∈ chunks, chunk.length = chunkSize) (hpos : 0 < chunkSize) {i : ℕ}
    (hi : i % chunkSize = 0) {p : List UInt8} (hp : p ≠ []) (buf : List UInt8) :
    readHexLoop chunkSize reverse (chunkSize * chunks.length) i
        (chunks.flatten.flatMap hexPair ++ p) buf =
      buf ++ chunks.flatMap (chunkOrder reverse) := by
  induction chunks generalizing i buf with
  | nil => simp [readHexLoop]
  | cons chunk chunks ih =>
    have hrest : chunks.flatten.flatMap hexPair ++ p ≠ [] := by simp [hp]
    rw [List.length_cons, Nat.mul_succ, Nat.add_comm, List.flatten_cons, List.flatMap_append,
      List.append_assoc,
      readHexLoop_chunk reverse (hlength chunk List.mem_cons_self) hpos _ hi hrest,
      ih (fun c hc => hlength c (List.mem_cons_of_mem chunk hc)) (by simp [hi]), List.append_assoc,
      List.flatMap_cons]

theorem readHexBytes_chunks {chunks : List (List UInt8)}
    (hlength : ∀ chunk ∈ chunks, chunk.length = chunkSize) (hpos : 0 < chunkSize) {p : List UInt8}
    (hp : p ≠ []) :
    readHexBytes (chunks.flatten.flatMap hexPair ++ p) chunkSize chunks.length reverse =
      chunks.flatMap (chunkOrder reverse) :=
  readHexLoop_chunks reverse hlength hpos (Nat.zero_mod _) hp []

theorem readHexBytes_chunk {chunk : List UInt8} (hlength : chunk.length = chunkSize)
    (hpos : 0 < chunkSize) {p : List UInt8} (hp : p ≠ []) :
    readHexBytes (chunk.flatMap hexPair ++ p) chunkSize 1 reverse = chunkOrder reverse chunk := by
  have hread := readHexLoop_chunk reverse hlength hpos 0 (Nat.zero_mod _) hp []
  unfold readHexBytes
  rw [Nat.mul_one]
  exact hread

end Chunks

end AcsNext.Collector
