import AcsNext.Collector.ConnLine
import AcsNext.Collector.NetworkCodec
import AcsNext.Data.Split

/-! The connection tables that the kernel prints: every row is parsed to what it was printed
from. -/
namespace AcsNext.Collector

open AcsNext.Data

theorem toNat_append_byte {w : ℕ} (x : BitVec w) (b : BitVec 8) :
    (x ++ b).toNat = 256 * x.toNat + b.toNat := by
  rw [BitVec.toNat_append, ← Nat.shiftLeft_add_eq_or_of_lt b.isLt, Nat.shiftLeft_eq, Nat.mul_comm]

theorem printUpperHex_byte (b : BitVec 8) :
    printUpperHex 2 b.toNat = hexPair (.ofBitVec b) := by
  have hprint := printUpperHex_add_two 0 0 b.isLt
  rw [Nat.mul_zero, Nat.zero_add, Nat.zero_add] at hprint
  exact hprint

theorem printUpperHex_append_byte (width : ℕ) {w : ℕ} (x : BitVec w) (b : BitVec 8) :
    printUpperHex (width + 2) (x ++ b).toNat =
      printUpperHex width x.toNat ++ hexPair (.ofBitVec b) := by
  rw [toNat_append_byte, printUpperHex_add_two width x.toNat b.isLt]
  rfl

def printedBytes (memory : List (BitVec 8)) : List UInt8 := memory.reverse.map UInt8.ofBitVec

theorem printUpperHex_word32 {memory : List (BitVec 8)} (h : 4 ≤ memory.length) :
    printUpperHex 8 (word32 memory).toNat = (printedBytes (memory.take 4)).flatMap hexPair := by
  obtain ⟨b0, b1, b2, b3, rest, rfl⟩ : ∃ b0 b1 b2 b3 rest, memory = b0 :: b1 :: b2 :: b3 :: rest := by
    match memory, h with
    | b0 :: b1 :: b2 :: b3 :: rest, _ => exact ⟨b0, b1, b2, b3, rest, rfl⟩
  change printUpperHex (2 + 2 + 2 + 2) (b3 ++ b2 ++ b1 ++ b0).toNat = _
  rw [printUpperHex_append_byte, printUpperHex_append_byte, printUpperHex_append_byte,
    printUpperHex_byte]
  rfl

theorem word16_extract (x : BitVec 16) : word16 [x.extractLsb' 0 8, x.extractLsb' 8 8] = x := by
  have hlt := x.isLt
  apply BitVec.eq_of_toNat_eq
  change (x.extractLsb' 8 8 ++ x.extractLsb' 0 8).toNat = x.toNat
  rw [toNat_append_byte, BitVec.extractLsb'_toNat, BitVec.extractLsb'_toNat,
    Nat.shiftRight_eq_div_pow, Nat.shiftRight_eq_div_pow]
  omega

theorem printUpperHex_word16 (x : BitVec 16) :
    printUpperHex 4 x.toNat =
      (printedBytes [x.extractLsb' 0 8, x.extractLsb' 8 8]).flatMap hexPair := by
  nth_rewrite 1 [← word16_extract x]
  change printUpperHex (2 + 2) (x.extractLsb' 8 8 ++ x.extractLsb' 0 8).toNat = _
  rw [printUpperHex_append_byte, printUpperHex_byte]
  rfl

theorem chunkOrder_printedBytes (memory : List (BitVec 8)) :
    chunkOrder true (printedBytes memory) = memory.map UInt8.ofBitVec := by
  rw [chunkOrder, if_pos rfl, printedBytes, ← List.map_reverse, List.reverse_reverse]

/-- The words of an address in host order. -/
def Address.procText (a : Address) : List UInt8 :=
  (List.range (a.length / 4)).flatMap fun k => printUpperHex 8 (word32 (a.bytes.drop (4 * k))).toNat

def endpointText (address : Address) (port : BitVec 16) : List UInt8 :=
  address.procText ++ 58 :: printUpperHex 4 port.toNat

theorem Address.four_dvd_length (a : Address) : 4 * (a.length / 4) = a.length := by
  unfold length Family.length
  split <;> rfl

def Address.printedWords (a : Address) : List (List UInt8) :=
  (List.range (a.length / 4)).map fun k => printedBytes ((a.bytes.drop (4 * k)).take 4)

theorem Address.length_drop_bytes {a : Address} {k : ℕ} (h : k < a.length / 4) :
    4 ≤ (a.bytes.drop (4 * k)).length := by
  rw [List.length_drop, length_bytes]
  omega

theorem Address.procText_eq (a : Address) : a.procText = a.printedWords.flatten.flatMap hexPair := by
  unfold procText printedWords
  rw [← List.flatMap_def, List.flatMap_assoc]
  apply List.flatMap_congr
  intro k hk
  exact printUpperHex_word32 (length_drop_bytes (List.mem_range.mp hk))

theorem Address.length_of_mem_printedWords {a : Address} {chunk : List UInt8}
    (h : chunk ∈ a.printedWords) : chunk.length = 4 := by
  obtain ⟨k, hk, rfl⟩ := List.mem_map.mp h
  have hlength := length_drop_bytes (List.mem_range.mp hk)
  rw [printedBytes, List.length_map, List.length_reverse, List.length_take, min_eq_left hlength]

theorem Address.chunkOrder_printedWords (a : Address) :
    a.printedWords.flatMap (chunkOrder true) = a.bytes.map UInt8.ofBitVec := by
  unfold printedWords
  simp only [List.flatMap_map, chunkOrder_printedBytes]
  rw [← List.map_flatMap, flatMap_range_take_drop, a.four_dvd_length, ← a.length_bytes,
    List.take_length]

theorem readHexBytes_procText (a : Address) {p : List UInt8} (hp : p ≠ []) :
    readHexBytes (a.procText ++ p) 4 (a.family.length / 4) true = a.bytes.map UInt8.ofBitVec := by
  have hcount : a.printedWords.length = a.family.length / 4 := by
    rw [Address.printedWords, List.length_map, List.length_range]
    rfl
  rw [a.procText_eq, ← hcount,
    readHexBytes_chunks true (fun _ => Address.length_of_mem_printedWords) (by omega) hp,
    a.chunkOrder_printedWords]

theorem readHexBytes_port (port : BitVec 16) {p : List UInt8} (hp : p ≠ []) :
    readHexBytes (printUpperHex 4 port.toNat ++ p) 2 1 true =
      [port.extractLsb' 0 8, port.extractLsb' 8 8].map UInt8.ofBitVec := by
  have hlength : (printedBytes [port.extractLsb' 0 8, port.extractLsb' 8 8]).length = 2 := rfl
  rw [printUpperHex_word16, readHexBytes_chunk true hlength (by omega) hp, chunkOrder_printedBytes]

theorem readHexBytes_state (state : BitVec 8) {p : List UInt8} (hp : p ≠ []) :
    readHexBytes (printUpperHex 2 state.toNat ++ p) 1 1 false = [.ofBitVec state] := by
  have hread := readHexBytes_chunk false (show [UInt8.ofBitVec state].length = 1 from rfl)
    (by omega) hp
  rw [List.flatMap_singleton, ← printUpperHex_byte] at hread
  exact hread

theorem Address.length_procText (a : Address) : a.procText.length = a.length * 2 := by
  unfold procText
  rw [List.length_flatMap]
  simp only [length_printUpperHex, List.map_const', List.sum_replicate, List.length_range]
  have := a.four_dvd_length
  rw [smul_eq_mul]
  omega

theorem parseEndpoint_eq {p rest addr port : List UInt8} {family : Family}
    (haddr : readHexBytes p 4 (family.length / 4) needsByteorderSwap = addr)
    (haddr_length : addr.length = family.length)
    (hcolon : p.drop (family.length * 2) = 58 :: rest)
    (hport : readHexBytes rest 2 1 needsByteorderSwap = port) (hport_length : port.length = 2) :
    parseEndpoint p family =
      some (⟨.ofAddress (.ofMemory family
          (addr.map UInt8.toBitVec ++ List.replicate (kMaxLen - addr.length) 0))
        (word16 (port.map UInt8.toBitVec)), raw_ofAddress _ _⟩, rest.drop 4) := by
  unfold parseEndpoint
  simp only [haddr, haddr_length, hcolon, hport, hport_length, ne_eq, not_true_eq_false, if_false]

theorem map_toBitVec_ofBitVec (l : List (BitVec 8)) :
    (l.map UInt8.ofBitVec).map UInt8.toBitVec = l := by
  rw [List.map_map]
  exact List.map_id l

theorem parseEndpoint_text (address : Address) (port : BitVec 16) {p : List UInt8} (hp : p ≠ []) :
    parseEndpoint (endpointText address port ++ p) address.family =
      some (⟨.ofAddress address port, raw_ofAddress _ _⟩, p) := by
  have htext : endpointText address port ++ p =
      address.procText ++ 58 :: (printUpperHex 4 port.toNat ++ p) := by
    rw [endpointText, List.append_assoc, List.cons_append]
  have haddr := readHexBytes_procText address
    (List.cons_ne_nil 58 (printUpperHex 4 port.toNat ++ p))
  have hlength : (address.bytes.map UInt8.ofBitVec).length = address.family.length := by
    rw [List.length_map, Address.length_bytes]
    rfl
  have hcolon : (address.procText ++ 58 :: (printUpperHex 4 port.toNat ++ p)).drop
      (address.family.length * 2) = 58 :: (printUpperHex 4 port.toNat ++ p) :=
    List.drop_left' address.length_procText
  rw [htext, parseEndpoint_eq haddr hlength hcolon (readHexBytes_port port hp) rfl]
  simp only [map_toBitVec_ofBitVec, ofMemory_bytes, word16_extract, drop_printUpperHex]

theorem inField_upperHexDigit {d : ℕ} (h : d < 16) : InField (upperHexDigit d) := by
  unfold InField
  interval_cases d <;> decide

theorem inField_printUpperHex {width n : ℕ} {b : UInt8} (h : b ∈ printUpperHex width n) :
    InField b := by
  induction width generalizing n with
  | zero => cases h
  | succ width ih =>
    rw [printUpperHex, List.mem_append, List.mem_singleton] at h
    rcases h with h | rfl
    · exact ih h
    · exact inField_upperHexDigit (Nat.mod_lt _ (by omega))

theorem inField_endpointText {address : Address} {port : BitVec 16} {b : UInt8}
    (h : b ∈ endpointText address port) : InField b := by
  rw [endpointText, List.mem_append, List.mem_cons] at h
  rcases h with h | rfl | h
  · obtain ⟨k, _, hk⟩ := List.mem_flatMap.mp h
    exact inField_printUpperHex hk
  · exact ⟨by decide, by decide⟩
  · exact inField_printUpperHex h

theorem inField_printDecimal {n : ℕ} {b : UInt8} (h : b ∈ printDecimal n) : InField b := by
  have hdigit := isDigit_printDecimal h
  refine ⟨?_, not_isSpace_of_isDigit hdigit⟩
  rintro rfl
  exact absurd hdigit (by decide)

def StartsField (p : List UInt8) : Prop := ∃ b rest, p = b :: rest ∧ InField b

theorem startsField_append {field : List UInt8} (hne : field ≠ [])
    (hfield : ∀ b ∈ field, InField b) (p : List UInt8) : StartsField (field ++ p) := by
  obtain ⟨b, field, rfl⟩ := List.exists_cons_of_ne_nil hne
  exact ⟨b, field ++ p, rfl, hfield b List.mem_cons_self⟩

theorem startsField_endpointText (address : Address) (port : BitVec 16) (p : List UInt8) :
    StartsField (endpointText address port ++ p) :=
  startsField_append (by simp [endpointText]) (fun _ => inField_endpointText) p

theorem dropWhile_margin {margin p : List UInt8} (hmargin : ∀ b ∈ margin, isSpace b = true)
    (hp : StartsField p) : (margin ++ p).dropWhile isSpace = p := by
  obtain ⟨b, rest, rfl, hb⟩ := hp
  rw [List.dropWhile_append_of_pos hmargin, List.dropWhile_cons_of_neg (by simp [hb.2])]

structure Padding where
  text : List UInt8
  ne_nil : text ≠ []
  blank : ∀ b ∈ text, isSpace b = true

/-- A column whose content is not read. -/
structure Column where
  text : List UInt8
  ne_nil : text ≠ []
  inField : ∀ b ∈ text, InField b

theorem Column.startsField (column : Column) (p : List UInt8) : StartsField (column.text ++ p) :=
  startsField_append column.ne_nil column.inField p

theorem nextfield_padding {field : List UInt8} (hfield : ∀ b ∈ field, InField b)
    (padding : Padding) {p : List UInt8} (hp : StartsField p) :
    nextfield (field ++ (padding.text ++ p)) = some p := by
  obtain ⟨b, rest, rfl, hb⟩ := hp
  rw [← List.append_assoc]
  exact nextfield_append hfield padding.ne_nil padding.blank hb rest

def columnsText (columns : List (Column × Padding)) (p : List UInt8) : List UInt8 :=
  columns.foldr (fun c p => c.1.text ++ (c.2.text ++ p)) p

/-- Over as many columns as there are, from within the field before them. -/
theorem repNextfield_columns {field : List UInt8} (hfield : ∀ b ∈ field, InField b)
    (padding : Padding) (columns : List (Column × Padding)) {p : List UInt8} (hp : StartsField p) :
    repNextfield (columns.length + 1) (field ++ (padding.text ++ columnsText columns p)) =
      some p := by
  induction columns generalizing field padding with
  | nil =>
    rw [repNextfield, columnsText, List.foldr_nil, nextfield_padding hfield padding hp]
    rfl
  | cons column columns ih =>
    have hcolumn : nextfield (field ++ (padding.text ++ columnsText (column :: columns) p)) =
        some (columnsText (column :: columns) p) :=
      nextfield_padding hfield padding (column.1.startsField _)
    rw [repNextfield, hcolumn]
    exact ih column.1.inField column.2

/-- A row of a connection table. After the inode come further columns, or the line ends. -/
structure TableRow where
  margin : List UInt8
  margin_blank : ∀ b ∈ margin, isSpace b = true
  slot : Column
  localAddress : Address
  localPort : BitVec 16
  remoteAddress : Address
  remotePort : BitVec 16
  same_family : remoteAddress.family = localAddress.family
  state : BitVec 8
  queues : Column
  timer : Column
  retransmits : Column
  uid : Column
  timeout : Column
  inode : BitVec 64
  padding : Fin 9 → Padding
  further : List UInt8
  further_blank : ∀ b ∈ further.head?, isSpace b = true

namespace TableRow

variable (row : TableRow)

def text : List UInt8 :=
  row.margin ++ row.slot.text ++ (row.padding 0).text ++
    endpointText row.localAddress row.localPort ++ (row.padding 1).text ++
    endpointText row.remoteAddress row.remotePort ++ (row.padding 2).text ++
    printUpperHex 2 row.state.toNat ++ (row.padding 3).text ++
    row.queues.text ++ (row.padding 4).text ++
    row.timer.text ++ (row.padding 5).text ++
    row.retransmits.text ++ (row.padding 6).text ++
    row.uid.text ++ (row.padding 7).text ++
    row.timeout.text ++ (row.padding 8).text ++
    printDecimal row.inode.toNat ++ row.further

def skippedColumns : List (Column × Padding) :=
  [(row.queues, row.padding 4), (row.timer, row.padding 5), (row.retransmits, row.padding 6),
    (row.uid, row.padding 7), (row.timeout, row.padding 8)]

def data : ConnLineData where
  localEp := .ofAddress row.localAddress row.localPort
  remote := .ofAddress row.remoteAddress row.remotePort
  state := row.state
  inode := row.inode.toNat
  local_raw := raw_ofAddress _ _

/-- The text from the inode on, with what the buffer holds after the line. -/
def fromInode (beyond : List UInt8) : List UInt8 :=
  printDecimal row.inode.toNat ++ (row.further ++ 0 :: beyond)

def fromState (beyond : List UInt8) : List UInt8 :=
  printUpperHex 2 row.state.toNat ++
    ((row.padding 3).text ++ columnsText row.skippedColumns (row.fromInode beyond))

def fromRemote (beyond : List UInt8) : List UInt8 :=
  endpointText row.remoteAddress row.remotePort ++ ((row.padding 2).text ++ row.fromState beyond)

def fromLocal (beyond : List UInt8) : List UInt8 :=
  endpointText row.localAddress row.localPort ++ ((row.padding 1).text ++ row.fromRemote beyond)

theorem columnsText_skippedColumns (p : List UInt8) :
    columnsText row.skippedColumns p =
      row.queues.text ++ ((row.padding 4).text ++ (row.timer.text ++ ((row.padding 5).text ++
        (row.retransmits.text ++ ((row.padding 6).text ++ (row.uid.text ++ ((row.padding 7).text ++
          (row.timeout.text ++ ((row.padding 8).text ++ p))))))))) := rfl

theorem text_append (beyond : List UInt8) :
    row.text ++ 0 :: beyond =
      row.margin ++ (row.slot.text ++ ((row.padding 0).text ++ row.fromLocal beyond)) := by
  unfold fromLocal fromRemote fromState fromInode
  rw [columnsText_skippedColumns]
  unfold text
  -- the printed numbers are appends themselves, which must not be reassociated
  generalize printUpperHex 2 row.state.toNat = stateText
  generalize printDecimal row.inode.toNat = inodeText
  simp only [List.append_assoc]

theorem startsField_fromInode (beyond : List UInt8) : StartsField (row.fromInode beyond) :=
  startsField_append (printDecimal_ne_nil _) (fun _ => inField_printDecimal) _

theorem startsField_fromState (beyond : List UInt8) : StartsField (row.fromState beyond) := by
  apply startsField_append
  · apply List.ne_nil_of_length_pos
    rw [length_printUpperHex]
    omega
  · exact fun _ => inField_printUpperHex

theorem nextfield_slot (beyond : List UInt8) :
    nextfield ((row.text ++ 0 :: beyond).dropWhile isSpace) = some (row.fromLocal beyond) := by
  rw [text_append, dropWhile_margin row.margin_blank (row.slot.startsField _)]
  exact nextfield_padding row.slot.inField (row.padding 0) (startsField_endpointText _ _ _)

theorem repNextfield_fromState (beyond : List UInt8) :
    repNextfield 6 ((row.fromState beyond).drop 2) = some (row.fromInode beyond) := by
  rw [fromState, drop_printUpperHex]
  exact repNextfield_columns (List.forall_mem_nil _) (row.padding 3) row.skippedColumns
    (row.startsField_fromInode beyond)

theorem strtoumax_fromInode (beyond : List UInt8) :
    ∃ b rest, strtoumax (row.fromInode beyond) = (row.inode.toNat, b :: rest) ∧
      (b = 0 ∨ isSpace b = true) := by
  obtain ⟨b, rest, hafter, hb⟩ : ∃ b rest, row.further ++ 0 :: beyond = b :: rest ∧
      (b = 0 ∨ isSpace b = true) := by
    cases hfurther : row.further with
    | nil => exact ⟨0, beyond, rfl, Or.inl rfl⟩
    | cons b further => exact ⟨b, _, rfl, Or.inr (row.further_blank b (by rw [hfurther]; rfl))⟩
  have hdigit : isDigit b = false := by
    rcases hb with rfl | hb
    · rfl
    · rw [← Bool.not_eq_true]
      intro hdigit
      rw [not_isSpace_of_isDigit hdigit] at hb
      exact Bool.false_ne_true hb
  refine ⟨b, rest, ?_, hb⟩
  rw [fromInode, hafter]
  apply strtoumax_printDecimal row.inode.isLt
  intro c hc
  obtain rfl := Option.some.inj hc
  exact hdigit

end TableRow

theorem parseConnLine_eq {p p₁ p₂ p₃ p₄ p₅ p₆ rest : List UInt8} {family : Family}
    {localEp remote : {endpoint : Endpoint // endpoint.Raw}} {state b : UInt8} {inode : ℕ}
    (hslot : nextfield (p.dropWhile isSpace) = some p₁)
    (hlocal : parseEndpoint p₁ family = some (localEp, p₂)) (hnext : nextfield p₂ = some p₃)
    (hremote : parseEndpoint p₃ family = some (remote, p₄)) (hnext' : nextfield p₄ = some p₅)
    (hstate : readHexBytes p₅ 1 1 false = [state]) (hrep : repNextfield 6 (p₅.drop 2) = some p₆)
    (hinode : strtoumax p₆ = (inode, b :: rest)) (hb : b = 0 ∨ isSpace b = true) :
    parseConnLine p family =
      some ⟨localEp, remote, state.toBitVec, inode, localEp.property⟩ := by
  have hend : ¬ (b ≠ 0 && !isSpace b) = true := by
    rcases hb with rfl | hb
    · simp
    · simp [hb]
  unfold parseConnLine
  simp only [hslot, hlocal, hnext, hremote, hnext', hstate, hrep, hinode, Option.bind_eq_bind,
    Option.bind_some, if_neg hend]

theorem TableRow.parseConnLine_text (row : TableRow) (beyond : List UInt8) :
    parseConnLine (row.text ++ 0 :: beyond) row.localAddress.family = some row.data := by
  have hpadding (n : Fin 9) (p : List UInt8) : (row.padding n).text ++ p ≠ [] :=
    List.append_ne_nil_of_left_ne_nil (row.padding n).ne_nil p
  have hlocal := parseEndpoint_text row.localAddress row.localPort
    (hpadding 1 (row.fromRemote beyond))
  have hremote := parseEndpoint_text row.remoteAddress row.remotePort
    (hpadding 2 (row.fromState beyond))
  rw [row.same_family] at hremote
  have hstate := readHexBytes_state row.state
    (hpadding 3 (columnsText row.skippedColumns (row.fromInode beyond)))
  obtain ⟨b, rest, hinode, hb⟩ := row.strtoumax_fromInode beyond
  exact parseConnLine_eq (row.nextfield_slot beyond) hlocal
    (nextfield_padding (List.forall_mem_nil _) (row.padding 1) (startsField_endpointText _ _ _))
    hremote
    (nextfield_padding (List.forall_mem_nil _) (row.padding 2) (row.startsField_fromState beyond))
    hstate (row.repNextfield_fromState beyond) hinode hb

/-- A row that the kernel prints, in a buffer that may hold more after its end, is parsed to the
endpoints, the state and the inode that were printed. -/
theorem connection_row_parsed (row : TableRow) (beyond : List UInt8) :
    ∃ data, parseConnLine (row.text ++ 0 :: beyond) row.localAddress.family = some data ∧
      data.localEp = .ofAddress row.localAddress row.localPort ∧
      data.remote = .ofAddress row.remoteAddress row.remotePort ∧
      data.state = row.state ∧ data.inode = row.inode.toNat :=
  ⟨row.data, row.parseConnLine_text beyond, rfl, rfl, rfl, rfl⟩

def listenRow : TableRow where
  margin := [32, 32, 32]
  margin_blank := by decide +kernel
  slot := ⟨[48, 58], by decide, by decide +kernel⟩
  localAddress := .ofMemory .ipv4 [127, 0, 0, 1]
  localPort := 8080
  remoteAddress := .ofMemory .ipv4 [192, 168, 0, 2]
  remotePort := 443
  same_family := rfl
  state := tcpListen
  queues := ⟨[48, 48, 58, 48, 48], by decide, by decide +kernel⟩
  timer := ⟨[48, 48, 58, 48, 48], by decide, by decide +kernel⟩
  retransmits := ⟨[48, 48], by decide, by decide +kernel⟩
  uid := ⟨[49, 48, 48, 48], by decide, by decide +kernel⟩
  timeout := ⟨[48], by decide, by decide +kernel⟩
  inode := 12345
  padding := fun _ => ⟨[32], by decide, by decide +kernel⟩
  further := [32, 49, 10]
  further_blank := by decide +kernel

/-- The row is the text `0: 0100007F:1F90 0200A8C0:01BB 0A 00:00 00:00 00 1000 0 12345 1`. -/
theorem connection_row_parsed_listenRow :
    listenRow.text = [32, 32, 32, 48, 58, 32, 48, 49, 48, 48, 48, 48, 55, 70, 58, 49, 70, 57, 48, 32, 48, 50, 48,
    48, 65, 56, 67, 48, 58, 48, 49, 66, 66, 32, 48, 65, 32, 48, 48, 58, 48, 48, 32, 48, 48, 58,
    48, 48, 32, 48, 48, 32, 49, 48, 48, 48, 32, 48, 32, 49, 50, 51, 52, 53, 32, 49, 10] ∧
    ∃ data, parseConnLine (listenRow.text ++ [0]) .ipv4 = some data ∧
      data.localEp = .ofAddress (.ofMemory .ipv4 [127, 0, 0, 1]) 8080 ∧
      data.remote = .ofAddress (.ofMemory .ipv4 [192, 168, 0, 2]) 443 ∧
      data.state = tcpListen ∧ data.inode = 12345 :=
  ⟨by decide +kernel, connection_row_parsed listenRow []⟩

def TcpFile.ofBuffers (family : Family) (buffers : List (List UInt8)) : TcpFile :=
  .lines (buffers.map fun p => parseConnLine p family)

/-- A table that the kernel prints is read as its rows, whatever each buffer holds after the
line. -/
theorem readConnectionsFromFile_rows (wantListen : Bool) (l4proto : L4Proto) (data : NSNetworkData)
    (family : Family) (rows : List (TableRow × List UInt8))
    (h : ∀ r ∈ rows, r.1.localAddress.family = family) :
    readConnectionsFromFile wantListen l4proto data
        (.ofBuffers family (rows.map fun r => r.1.text ++ 0 :: r.2)) =
      readConnectionsFromFile wantListen l4proto data (.lines (rows.map fun r => some r.1.data)) := by
  have hlines : (rows.map fun r => r.1.text ++ 0 :: r.2).map (fun p => parseConnLine p family) =
      rows.map fun r => some r.1.data := by
    rw [List.map_map]
    apply List.map_congr_left
    intro r hr
    rw [← h r hr]
    exact r.1.parseConnLine_text r.2
  rw [TcpFile.ofBuffers, hlines]

end AcsNext.Collector
