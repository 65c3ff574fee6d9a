import EduDevices.Proof.CryptoSession

namespace EduDevices

/-- A part of a message: the host's programming of its command, what the host does to its memory
before the command, the two buffers and the number of blocks. -/
structure Chunk where
  program : List HostWrite
  host : Memory → Memory
  src : Address
  dst : Address
  blocks : Nat

def Chunk.size (chunk : Chunk) : Nat := chunk.blocks * 16

def Chunk.len (chunk : Chunk) : BitVec 32 := BitVec.ofNat 32 chunk.size

/-- The offsets and values that set up the command. The key stays, and the IV does unless a block
is given. -/
def Chunk.programming (chunk : Chunk) (chain : Option Aes.AesBlock) :
    List (BitVec 64 × BitVec 32) :=
  (match chain with
    | some block => blockWords regCryptoIv block
    | none => []) ++
    [(regCryptoSrcLo, lowHalf chunk.src), (regCryptoSrcHi, highHalf chunk.src),
      (regCryptoDstLo, lowHalf chunk.dst), (regCryptoDstHi, highHalf chunk.dst),
      (regCryptoLen, chunk.len)]

/-- The program makes each write once, in any order. -/
def Chunk.Programs (chunk : Chunk) (chain : Option Aes.AesBlock) : Prop :=
  (chunk.program.map HostWrite.entry).Perm (chunk.programming chain)

/-- The host programs the engine and starts it. -/
def Chunk.run (dma : Dma DmaDescriptor) (encrypts : Bool)
    (machine : EduPciState × Guest DmaDescriptor) (chunk : Chunk) :
    EduPciState × Guest DmaDescriptor :=
  cryptoAccess dma (chunk.program.foldl (cryptoAccess dma) machine)
    ⟨chunk.host, regCryptoCmd, command encrypts⟩

/-- The ciphertext of a chunk is what the command wrote when it encrypted and what it was to read
when it decrypted. -/
def Chunk.ciphertext (chunk : Chunk) (encrypts : Bool)
    (before after : EduPciState × Guest DmaDescriptor) : List Byte :=
  if encrypts then after.2.memory.read chunk.dst chunk.size
  else before.2.memory.read chunk.src chunk.size

/-- Before each later chunk the host rewrites the IV to the last ciphertext block of the chunk before. -/
def Chunked (dma : Dma DmaDescriptor) (encrypts : Bool) :
    Option Aes.AesBlock → EduPciState × Guest DmaDescriptor → List Chunk → Prop
  | _, _, [] => True
  | chain, machine, chunk :: rest =>
      let next := chunk.run dma encrypts machine
      chunk.Programs chain ∧
        Chunked dma encrypts (some (Aes.lastBlock (chunk.ciphertext encrypts machine next))) next rest

/-- What the commands left at their destinations, each read when its command was done. -/
def chunkOutputs (dma : Dma DmaDescriptor) (encrypts : Bool) :
    EduPciState × Guest DmaDescriptor → List Chunk → List Byte
  | _, [] => []
  | machine, chunk :: rest =>
      let next := chunk.run dma encrypts machine
      next.2.memory.read chunk.dst chunk.size ++ chunkOutputs dma encrypts next rest

/-- Neither the host nor the engine reaches a range while it serves a chunk. -/
def Chunk.HostSpares (chunk : Chunk) (base : Address) (length : Nat) : Prop :=
  (∀ write ∈ chunk.program, Spares write.host base length) ∧ Spares chunk.host base length

/-- A value that no write has an offset for has no last word. -/
theorem lastWord_absent {program : List HostWrite} {entries : List (BitVec 64 × BitVec 32)}
    (perm : (program.map HostWrite.entry).Perm entries) {addr : BitVec 64}
    (absent : entries.filter (·.1 = addr) = []) : lastWord addr program = none := by
  have filtered := perm.filter (fun entry => decide (entry.1 = addr))
  rw [absent, List.perm_nil, List.filter_map, List.map_eq_nil_iff] at filtered
  have none : program.filter (·.addr = addr) = [] := filtered
  rw [lastWord, none]
  rfl

theorem foldl_blockWrite_other {base : BitVec 64} {writes : List HostWrite} (block : Aes.AesBlock)
    (other : ∀ write ∈ writes, ∀ word < 4, write.addr ≠ wordOffset base word) :
    writes.foldl (fun block write => blockWrite base write block) block = block := by
  induction writes with
  | nil => rfl
  | cons write rest ih =>
      rw [List.foldl_cons, blockWrite_other block (other write List.mem_cons_self)]
      exact ih fun later member => other later (List.mem_cons_of_mem write member)

section Program

variable {chunk : Chunk} {chain : Option Aes.AesBlock} (programs : chunk.Programs chain)

include programs

/-- Programming is aligned, starts no command and writes no key word. -/
theorem Chunk.Programs.offsets : ∀ write ∈ chunk.program, write.Aligned ∧
    write.addr ≠ regCryptoCmd ∧ ∀ word < 4, write.addr ≠ wordOffset regCryptoKey word := by
  intro write member
  have listed := programs.mem_iff.mp (List.mem_map_of_mem (f := HostWrite.entry) member)
  have offsets : ∀ entry ∈ chunk.programming chain, entry.1.toNat % 4 = 0 ∧
      entry.1 ≠ regCryptoCmd ∧ ∀ word < 4, entry.1 ≠ wordOffset regCryptoKey word := by
    cases chain with
    | none =>
        simp only [Chunk.programming, List.nil_append, List.forall_mem_cons, List.not_mem_nil,
          false_implies, implies_true, and_true]
        and_intros <;> decide
    | some block =>
        simp only [Chunk.programming, blockWords, List.range_succ, List.range_zero, List.nil_append,
          List.cons_append, List.map_cons, List.map_nil, List.forall_mem_cons, List.not_mem_nil,
          false_implies, implies_true, and_true]
        and_intros <;> decide
  exact offsets _ listed

theorem Chunk.Programs.key_block (block : Aes.AesBlock) :
    chunk.program.foldl (fun block write => blockWrite regCryptoKey write block) block = block :=
  foldl_blockWrite_other block fun write member => (programs.offsets write member).2.2

theorem Chunk.Programs.iv_block (block : Aes.AesBlock) :
    chunk.program.foldl (fun block write => blockWrite regCryptoIv write block) block =
      chain.getD block := by
  apply Vector.ext
  intro i inside
  rw [getElem_foldl_blockWrite]
  have word : i / 4 < 4 := by omega
  cases chain with
  | none =>
      have absent : lastWord (wordOffset regCryptoIv (i / 4)) chunk.program = none := by
        apply lastWord_absent programs
        generalize i / 4 = place at word
        interval_cases place <;> rfl
      rw [absent]
      rfl
  | some iv =>
      have written : lastWord (wordOffset regCryptoIv (i / 4)) chunk.program =
          some (blockWord iv (i / 4)) := by
        apply lastWord_entry programs
        generalize i / 4 = place at word
        interval_cases place <;> rfl
      rw [written]
      exact byteOf_blockWord iv i inside

/-- A program sets up the buffers and the IV and leaves the key and its schedule. -/
theorem Chunk.Programs.device (dma : Dma DmaDescriptor) (s : EduPciState)
    (g : Guest DmaDescriptor) :
    (chunk.program.foldl (cryptoAccess dma) (s, g)).1 =
      withCrypto s chunk.src chunk.dst chunk.len s.cryptoKey (chain.getD s.cryptoIv)
        s.roundKeys := by
  have once : ∀ entry ∈ bufferWords chunk.src chunk.dst chunk.len,
      (chunk.programming chain).filter (·.1 = entry.1) = [entry] := by
    simp only [bufferWords, List.forall_mem_cons, List.not_mem_nil, false_implies, implies_true,
      and_true]
    cases chain <;> and_intros <;> rfl
  have schedule : (chunk.program.foldl registered s).roundKeys = s.roundKeys :=
    foldl_registered_roundKeys chunk.program s fun write member =>
      (programs.offsets write member).2.2 3 (by decide)
  rw [program_device programs (fun write member => (programs.offsets write member).1) once,
    programs.key_block, programs.iv_block, schedule]

end Program

/-- The conditions under which a chunk is served: its size, its transfers and its source. -/
structure Chunk.Served (dma : Dma DmaDescriptor) (chunk : Chunk) : Prop where
  positive : 1 ≤ chunk.blocks
  bounded : chunk.blocks ≤ 256
  reads : ∀ trace, dma.readFault trace chunk.src chunk.size = none
  writes : ∀ trace, dma.writeFault trace chunk.dst chunk.size = none
  spares : chunk.HostSpares chunk.src chunk.size

theorem cbc_append (encrypts : Bool) (rk : Aes.RoundKeys) (iv : Aes.AesBlock)
    {first second : List Byte} {count more : Nat} (positive : 1 ≤ count)
    (whole : first.length = count * 16) (rest : second.length = more * 16) :
    cbc encrypts rk iv (first ++ second) ((count + more) * 16) =
      cbc encrypts rk iv first (count * 16) ++
        cbc encrypts rk (Aes.lastBlock
          (if encrypts then cbc encrypts rk iv first (count * 16) else first)) second (more * 16) := by
  cases encrypts with
  | true => exact Aes.aesCbcEncrypt_append rk iv positive whole rest
  | false => exact Aes.aesCbcDecrypt_append rk iv positive whole rest

section Run

variable {dma : Dma DmaDescriptor} {chunk : Chunk} {chain : Option Aes.AesBlock}

theorem Chunk.Served.toNat_len (served : chunk.Served dma) : chunk.len.toNat = chunk.size := by
  have bounded := served.bounded
  rw [Chunk.len, BitVec.toNat_ofNat]
  exact Nat.mod_eq_of_lt (by rw [Chunk.size]; omega)

/-- What the host spares is as it was when the command starts. -/
theorem Chunk.Programs.read_spared (programs : chunk.Programs chain) (dma : Dma DmaDescriptor)
    {base : Address} {length : Nat} (spares : chunk.HostSpares base length)
    (machine : EduPciState × Guest DmaDescriptor) :
    (chunk.host (chunk.program.foldl (cryptoAccess dma) machine).2.memory).read base length =
      machine.2.memory.read base length := by
  have before : (chunk.program.foldl (cryptoAccess dma) machine).2.memory.read base length =
      machine.2.memory.read base length :=
    read_program (fun write member => (programs.offsets write member).2.1) spares.1 machine
  rw [← before]
  exact spares.2.read _

/-- Serving a chunk leaves the transform of its source at its destination and touches no other
byte that the host spares. -/
theorem Chunk.run_spec (served : chunk.Served dma) (programs : chunk.Programs chain)
    {s : EduPciState} (idle : s.cryptoBusy = 0) (g : Guest DmaDescriptor) (encrypts : Bool) :
    ∃ guest, chunk.run dma encrypts (s, g) = (withCrypto s chunk.src chunk.dst chunk.len s.cryptoKey
        (chain.getD s.cryptoIv) s.roundKeys, guest) ∧
      guest.memory.read chunk.dst chunk.size = cbc encrypts s.roundKeys (chain.getD s.cryptoIv)
        (g.memory.read chunk.src chunk.size) chunk.size ∧
      ∀ base length, chunk.HostSpares base length →
        Apart chunk.dst chunk.size base length →
        guest.memory.read base length = g.memory.read base length := by
  have size := served.toNat_len
  have bounded : chunk.size ≤ 4096 := by
    have blocks := served.bounded
    rw [Chunk.size]
    omega
  have whole : chunk.size % 16 = 0 := Nat.mul_mod_left chunk.blocks 16
  have source := programs.read_spared dma served.spares (s, g)
  have device := programs.device dma s g
  have spared (base : Address) (length : Nat) (spares : chunk.HostSpares base length) :=
    programs.read_spared dma spares (s, g)
  unfold Chunk.run
  generalize chunk.program.foldl (cryptoAccess dma) (s, g) = ready at device source spared ⊢
  obtain ⟨ready, guest⟩ := ready
  dsimp only at device source spared ⊢
  subst device
  have operation := cryptoAccess_command dma (s := withCrypto s chunk.src chunk.dst chunk.len
    s.cryptoKey (chain.getD s.cryptoIv) s.roundKeys) guest chunk.host encrypts idle
    (by rw [← size] at whole; exact whole) (by rw [← size] at bounded; exact bounded)
    (by have reads := served.reads; rw [← size] at reads; exact reads)
    (by have writes := served.writes; rw [← size] at writes; exact writes)
  dsimp only [withCrypto] at operation
  rw [size, source] at operation
  refine ⟨_, operation, ?_, ?_⟩
  · have written := read_write_cbc (chunk.host guest.memory) chunk.dst encrypts s.roundKeys
      (chain.getD s.cryptoIv) (g.memory.read chunk.src chunk.size)
      (show chunk.len.toNat % 16 = 0 by rw [size]; exact whole)
    rw [size] at written
    exact written
  · intro base length spares apart
    rw [← spared base length spares]
    apply (chunk.host guest.memory).read_write_apart
    rw [length_cbc _ _ _ _ whole]
    exact apart

end Run

/-- While one chunk is served, nothing reaches the source of the other. -/
def Chunk.Before (chunk later : Chunk) : Prop :=
  chunk.HostSpares later.src later.size ∧ Apart chunk.dst chunk.size later.src later.size

/-- The message that stands at the sources of the chunks. -/
def messageOf (memory : Memory) (chunks : List Chunk) : List Byte :=
  chunks.flatMap fun chunk => memory.read chunk.src chunk.size

def totalBlocks (chunks : List Chunk) : Nat := (chunks.map Chunk.blocks).sum

theorem length_messageOf (memory : Memory) (chunks : List Chunk) :
    (messageOf memory chunks).length = totalBlocks chunks * 16 := by
  induction chunks with
  | nil => rfl
  | cons chunk rest ih =>
      have head : messageOf memory (chunk :: rest) =
          memory.read chunk.src chunk.size ++ messageOf memory rest := rfl
      rw [head, List.length_append, ih, Memory.length_read, totalBlocks, totalBlocks, List.map_cons,
        List.sum_cons, Nat.add_mul]
      rfl

/-- The message of the later chunks is still there after a chunk. -/
theorem messageOf_congr {first second : Memory} {chunks : List Chunk}
    (same : ∀ chunk ∈ chunks, first.read chunk.src chunk.size = second.read chunk.src chunk.size) :
    messageOf first chunks = messageOf second chunks :=
  List.flatMap_congr same

theorem chunkOutputs_cbc {dma : Dma DmaDescriptor} (encrypts : Bool) {chunks : List Chunk}
    (served : ∀ chunk ∈ chunks, chunk.Served dma) (ordered : chunks.Pairwise Chunk.Before)
    {s : EduPciState} (idle : s.cryptoBusy = 0) (g : Guest DmaDescriptor)
    {chain : Option Aes.AesBlock} (chunked : Chunked dma encrypts chain (s, g) chunks) :
    chunkOutputs dma encrypts (s, g) chunks =
      cbc encrypts s.roundKeys (chain.getD s.cryptoIv) (messageOf g.memory chunks)
        (totalBlocks chunks * 16) := by
  induction chunks generalizing s g chain with
  | nil => cases encrypts <;> rfl
  | cons chunk rest ih =>
      obtain ⟨programs, later⟩ := chunked
      obtain ⟨before, others⟩ := List.pairwise_cons.mp ordered
      have first := served chunk List.mem_cons_self
      obtain ⟨guest, run, written, kept⟩ := chunk.run_spec first programs idle g encrypts
      have remaining : messageOf guest.memory rest = messageOf g.memory rest := by
        apply messageOf_congr
        intro next member
        exact kept next.src next.size (before next member).1 (before next member).2
      have cipher : chunk.ciphertext encrypts (s, g) (chunk.run dma encrypts (s, g)) =
          if encrypts then cbc encrypts s.roundKeys (chain.getD s.cryptoIv)
            (g.memory.read chunk.src chunk.size) chunk.size
          else g.memory.read chunk.src chunk.size := by
        rw [Chunk.ciphertext, run]
        dsimp only
        rw [written]
      rw [cipher, run] at later
      have onward := ih (fun next member => served next (List.mem_cons_of_mem chunk member)) others
        (s := withCrypto s chunk.src chunk.dst chunk.len s.cryptoKey (chain.getD s.cryptoIv)
          s.roundKeys) idle guest later
      have joined : messageOf g.memory (chunk :: rest) =
          g.memory.read chunk.src chunk.size ++ messageOf g.memory rest := rfl
      have total : totalBlocks (chunk :: rest) = chunk.blocks + totalBlocks rest := by
        rw [totalBlocks, List.map_cons, List.sum_cons]
        rfl
      rw [remaining] at onward
      have split := cbc_append encrypts s.roundKeys (chain.getD s.cryptoIv) first.positive
        (Memory.length_read g.memory chunk.src chunk.size) (length_messageOf g.memory rest)
      rw [joined, total, split]
      unfold chunkOutputs
      dsimp only
      rw [run, written]
      exact congrArg _ onward

/-- A message that is sent through the engine in chunks, each with the IV set to the last ciphertext
block of the chunk before it, is transformed as by one chain over the whole message. -/
theorem chunkedCbc (dma : Dma DmaDescriptor) (s : EduPciState) (idle : s.cryptoBusy = 0)
    (g : Guest DmaDescriptor) (chunks : List Chunk)
    (served : ∀ chunk ∈ chunks, chunk.Served dma) (ordered : chunks.Pairwise Chunk.Before)
    (chain : Option Aes.AesBlock) :
    let message := messageOf g.memory chunks
    let iv := chain.getD s.cryptoIv
    (Chunked dma true chain (s, g) chunks → chunkOutputs dma true (s, g) chunks =
      Aes.aesCbcEncrypt s.roundKeys iv message message.length) ∧
    (Chunked dma false chain (s, g) chunks → chunkOutputs dma false (s, g) chunks =
      Aes.aesCbcDecrypt s.roundKeys iv message message.length) := by
  dsimp only
  rw [length_messageOf]
  exact ⟨chunkOutputs_cbc true served ordered idle g, chunkOutputs_cbc false served ordered idle g⟩

/-- A chunk that is programmed in the listed order by a host that leaves its memory alone. -/
def listedChunk (chain : Option Aes.AesBlock) (src dst : Address) (blocks : Nat) : Chunk :=
  let bare : Chunk := ⟨[], id, src, dst, blocks⟩
  { bare with program := (bare.programming chain).map fun entry => ⟨id, entry.1, entry.2⟩ }

theorem listedChunk_programs (chain : Option Aes.AesBlock) (src dst : Address) (blocks : Nat) :
    (listedChunk chain src dst blocks).Programs chain := by
  rw [Chunk.Programs, listedChunk, List.map_map]
  exact .of_eq (List.map_id _)

theorem listedChunk_spares (chain : Option Aes.AesBlock) (src dst : Address) (blocks : Nat)
    (base : Address) (length : Nat) : (listedChunk chain src dst blocks).HostSpares base length := by
  constructor
  · intro write member
    obtain ⟨entry, -, rfl⟩ := List.mem_map.mp member
    exact fun _ _ _ => rfl
  · exact fun _ _ _ => rfl

theorem listedChunk_served (chain : Option Aes.AesBlock) (src dst : Address) {blocks : Nat}
    (positive : 1 ≤ blocks) (bounded : blocks ≤ 256)
    (stack : List (Event DmaDescriptor) → Nat → Byte) :
    (listedChunk chain src dst blocks).Served (DmaPattern.reliable.dma stack) :=
  ⟨positive, bounded, fun _ => rfl, fun _ => rfl, listedChunk_spares ..⟩

/-- The largest chunk of a buffer is followed by one more block of it. -/
def fullAndMore (encrypts : Bool) (dma : Dma DmaDescriptor)
    (machine : EduPciState × Guest DmaDescriptor) : List Chunk :=
  let first := listedChunk none 0x10000 0x20000 256
  let chain := Aes.lastBlock (first.ciphertext encrypts machine (first.run dma encrypts machine))
  [first, listedChunk (some chain) 0x11000 0x21000 1]

theorem chunkedCbc_fullAndMore :
    let dma : Dma DmaDescriptor := DmaPattern.reliable.dma fun _ _ => 0
    let s : EduPciState := { EduPciState.zeroed ⟨true⟩ with
      cryptoIv := Vector.replicate 16 0x42, roundKeys := Vector.replicate 176 0x17 }
    let g : Guest DmaDescriptor := ⟨fun address => address.setWidth 8, []⟩
    let message := g.memory.read 0x10000 4096 ++ g.memory.read 0x11000 16
    chunkOutputs dma true (s, g) (fullAndMore true dma (s, g)) =
        Aes.aesCbcEncrypt s.roundKeys s.cryptoIv message message.length ∧
      chunkOutputs dma false (s, g) (fullAndMore false dma (s, g)) =
        Aes.aesCbcDecrypt s.roundKeys s.cryptoIv message message.length := by
  intro dma s g message
  have served (encrypts : Bool) :
      ∀ chunk ∈ fullAndMore encrypts dma (s, g), chunk.Served dma := by
    intro chunk member
    simp only [fullAndMore, List.mem_cons, List.not_mem_nil, or_false] at member
    rcases member with rfl | rfl
    · exact listedChunk_served _ _ _ (by decide) (by decide) _
    · exact listedChunk_served _ _ _ (by decide) (by decide) _
  have ordered (encrypts : Bool) :
      (fullAndMore encrypts dma (s, g)).Pairwise Chunk.Before := by
    have apart : Apart (0x20000 : Address) 4096 0x11000 16 :=
      apart_of_order (by decide) (by decide) (by decide)
    exact List.pairwise_pair.mpr ⟨listedChunk_spares .., apart⟩
  have chunked (encrypts : Bool) :
      Chunked dma encrypts none (s, g) (fullAndMore encrypts dma (s, g)) :=
    ⟨listedChunk_programs .., listedChunk_programs .., trivial⟩
  have encrypted := (chunkedCbc dma s rfl g _ (served true) (ordered true) none).1 (chunked true)
  have decrypted := (chunkedCbc dma s rfl g _ (served false) (ordered false) none).2 (chunked false)
  have whole (encrypts : Bool) :
      messageOf g.memory (fullAndMore encrypts dma (s, g)) = message :=
    congrArg (g.memory.read 0x10000 4096 ++ ·) (List.append_nil _)
  rw [whole] at encrypted decrypted
  exact ⟨encrypted, decrypted⟩

end EduDevices
