import Mathlib.Algebra.Ring.Nat
import Mathlib.Order.MinMax
import Tdvmm.Lib.Except
import Tdvmm.Lib.Range
import Tdvmm.Proto.Egress

/-!
# Vmm.Boot — where the parts of a boot lie in guest memory

The guest's RAM is one region from address 0, or two with the gap below 4 GiB left out. Into it
go the kernel, where the ELF loader puts it, the initramfs, at the top of the low region, and at
fixed addresses the GDT, the page tables, the command line, the MP table and the zero page with
the E820 map.

Only the size of the initramfs is checked, against the whole of the low region, so that it may
come to lie over the kernel and the first megabyte (`layout_fails`).
-/

namespace Tdvmm.Vmm.Boot

open Lib Proto

/-! ## The layout constants -/

def HIMEM_START : Nat := 0x100000
def ZERO_PAGE_START : Nat := 0x7000
def CMDLINE_START : Nat := 0x20000
def CMDLINE_MAX_SIZE : Nat := 2048
def BOOT_GDT_OFFSET : Nat := 0x500
def BOOT_IDT_OFFSET : Nat := 0x520
def PML4_START : Nat := 0x9000
def PDPTE_START : Nat := 0xa000
def PDE_START : Nat := 0xb000
def SYSTEM_MEM_START : Nat := 0x9fc00
def RSDP_ADDR : Nat := 0xe0000
def SYSTEM_MEM_SIZE : Nat := RSDP_ADDR - SYSTEM_MEM_START
def MMIO_MEM_START : Nat := 0xc0000000
def FIRST_ADDR_PAST_32BITS : Nat := 0x100000000
def MAX_GUEST_MEM : Nat := 2 ^ 40

/-! ## What is not the VMM's own -/

/-- What loading a kernel comes to: the address it is entered at, and the memory its image
takes. -/
structure Loaded where
  kernelLoad : Nat
  image : List Range
deriving DecidableEq, Repr

/-- `vm-memory` and the parts of `linux-loader`: mapping regions, writing to a range of
them, loading an ELF image (`Elf::load`, given the start of high memory), and a command line
with its terminating zero. -/
structure Loader where
  fromRanges : List Range → Except String Unit
  write : List Range → Range → Except String Unit
  loadElf : List Range → Bytes → Nat → Except String Loaded
  cstring : String → Except String Bytes

/-- What is relied on: bytes are written inside a region, and a command line does not
exceed its capacity. -/
structure Loader.Documented (L : Loader) : Prop where
  write_within : ∀ regions r, L.write regions r = .ok () → 0 < r.len →
    ∃ region ∈ regions, r.Within region
  cstring_size : ∀ line bytes, L.cstring line = .ok bytes → bytes.length ≤ CMDLINE_MAX_SIZE

/-! ## Guest memory -/

inductive BootError where
  | tooLarge (size : Nat)
  | mmap (e : String)
  | boot (what e : String)
  | initrdTooLarge
  | tooManyE820
  | regs (what e : String)
deriving DecidableEq, Repr

def context {α : Type} (err : String → BootError) : Except String α → Except BootError α
  | .ok a => .ok a
  | .error e => .error (err e)

section Setup

variable (L : Loader)

def guestRanges (size : Nat) : List Range :=
  if size > MMIO_MEM_START then
    [⟨0, MMIO_MEM_START⟩, ⟨FIRST_ADDR_PAST_32BITS, size - MMIO_MEM_START⟩]
  else [⟨0, size⟩]

def createGuestMemory (size : Nat) : Except BootError (List Range) := do
  if size > MAX_GUEST_MEM then .error (.tooLarge size)
  else
    context .mmap (L.fromRanges (guestRanges size))
    return guestRanges size

/-! ## The images -/

def loadKernel (mem : List Range) (kernel : Bytes) : Except BootError Loaded :=
  context (.boot "loading vmlinux ELF") (L.loadElf mem kernel HIMEM_START)

/-- The initramfs, page-aligned at the top of the low region. -/
def loadInitrd (mem : List Range) (size memSize : Nat) : Except BootError Range := do
  let lowmemEnd := ((mem.find? fun r => decide (r.Has 0)).map (·.len)).getD memSize
  if size > lowmemEnd then .error .initrdTooLarge
  else
    let address := (lowmemEnd - size) / 4096 * 4096
    context (.boot "writing initramfs to guest memory") (L.write mem ⟨address, size⟩)
    return ⟨address, size⟩

/-! ## Registers and tables -/

def gdt : Range := ⟨BOOT_GDT_OFFSET, 4 * 8⟩

/-- The three tables, a page each. -/
def pageTables : Range := ⟨PML4_START, 3 * 4096⟩

def setupPageTables (mem : List Range) : Except BootError Unit := do
  context (.regs "write PML4") (L.write mem ⟨PML4_START, 8⟩)
  context (.regs "write PDPTE") (L.write mem ⟨PDPTE_START, 8⟩)
  (List.range 512).forM fun i => context (.regs "write PDE") (L.write mem ⟨PDE_START + i * 8, 8⟩)

def setupSregs (mem : List Range) : Except BootError Unit := do
  (List.range 4).forM fun i =>
    context (.regs "write GDT") (L.write mem ⟨BOOT_GDT_OFFSET + i * 8, 8⟩)
  context (.regs "write IDT") (L.write mem ⟨BOOT_IDT_OFFSET, 8⟩)
  setupPageTables L mem

/-- The size of the MP table: the pointer and the header, then a CPU, the IO-APIC, the
bus, 24 interrupt sources and two local ones. -/
def mpSize (numCpus : Nat) : Nat := 16 + 44 + 20 * numCpus + 8 + 8 + 8 * (23 + 1) + 8 * 2

def mpTable (numCpus : Nat) : Range := ⟨SYSTEM_MEM_START, mpSize numCpus⟩

/-- The whole table is cleared first, so the entries are written where a write went
through. -/
def setupMptable (mem : List Range) (numCpus : Nat) : Except BootError Unit :=
  context (.boot "mptable") (L.write mem (mpTable numCpus))

/-! ## The E820 map -/

inductive E820Type where
  | ram
  | reserved
deriving DecidableEq, Repr

structure E820Entry where
  range : Range
  type : E820Type
deriving DecidableEq, Repr

def addE820Entry (table : List E820Entry) (addr size : Nat) (type : E820Type) :
    Except BootError (List E820Entry) :=
  if table.length < 128 then .ok (table ++ [⟨⟨addr, size⟩, type⟩]) else .error .tooManyE820

def wrappingSub (a b : Nat) : Nat := (a + (2 ^ 64 - b)) % 2 ^ 64

def buildE820Map (memSize : Nat) : Except BootError (List E820Entry) := do
  let lowRamEnd := min memSize MMIO_MEM_START
  let table ← addE820Entry [] 0 SYSTEM_MEM_START .ram
  let table ← addE820Entry table SYSTEM_MEM_START SYSTEM_MEM_SIZE .reserved
  let table ← addE820Entry table HIMEM_START (wrappingSub lowRamEnd HIMEM_START) .ram
  if memSize > MMIO_MEM_START then
    addE820Entry table FIRST_ADDR_PAST_32BITS (memSize - MMIO_MEM_START) .ram
  else return table

/-! ## The boot -/

def zeroPage : Range := ⟨ZERO_PAGE_START, 4096⟩

/-- Command line, MP table, E820 map and zero page; the command line's size and the map. -/
def configureSystem (mem : List Range) (cmdline : String) (memSize numCpus : Nat) :
    Except BootError (Nat × List E820Entry) := do
  let line ← context (.boot "cmdline insert") (L.cstring cmdline)
  context (.boot "loading cmdline") (L.write mem ⟨CMDLINE_START, line.length⟩)
  setupMptable L mem numCpus
  let e820 ← buildE820Map memSize
  context (.boot "writing zero page") (L.write mem zeroPage)
  return (line.length, e820)

structure Booted where
  regions : List Range
  kernel : Loaded
  initrd : Range
  cmdlineSize : Nat
  e820 : List E820Entry
deriving DecidableEq

/-- The bytes of `mem_mib`, in `u64`. -/
def memSizeOf (memMib : Nat) : Nat := memMib * 1024 * 1024 % 2 ^ 64

/-- The part of `boot_and_run` that fills guest memory. -/
def bootSetup (memMib : Nat) (kernel initrd : Bytes) (cmdline : String) (allowEgress : Bool) :
    Except BootError Booted := do
  let memSize := memSizeOf memMib
  let mem ← createGuestMemory L memSize
  let loaded ← loadKernel L mem kernel
  let initrdRange ← loadInitrd L mem initrd.length memSize
  setupSregs L mem
  let cmdline := if allowEgress then cmdline ++ " tdvmm.egress=1" else cmdline
  let (cmdlineSize, e820) ← configureSystem L mem cmdline memSize 1
  return ⟨mem, loaded, initrdRange, cmdlineSize, e820⟩

end Setup

/-! ## What a boot comes to -/

section Outcome

variable {L : Loader} {mem : List Range} {memMib memSize size : Nat} {kernel initrd : Bytes}
  {cmdline : String} {allowEgress : Bool} {b : Booted}

theorem context_ok {α : Type} {err : String → BootError} {m : Except String α} {a : α}
    (h : context err m = .ok a) : m = .ok a := by
  rcases m with e | a'
  · contradiction
  · exact congrArg Except.ok (Except.ok.inj h)

def lowEnd (memSize : Nat) : Nat := min memSize MMIO_MEM_START

theorem createGuestMemory_ok (h : createGuestMemory L memSize = .ok mem) :
    memSize ≤ MAX_GUEST_MEM ∧ mem = guestRanges memSize := by
  unfold createGuestMemory at h
  split at h
  · contradiction
  next hsize =>
    obtain ⟨_, _, hmem⟩ := bind_ok.mp h
    exact ⟨not_lt.mp hsize, (Except.ok.inj hmem).symm⟩

/-- The initramfs goes to the last page boundary that leaves it room. -/
def initrdRange (memSize size : Nat) : Range := ⟨(lowEnd memSize - size) / 4096 * 4096, size⟩

theorem find_low :
    (((guestRanges memSize).find? fun r => decide (r.Has 0)).map (·.len)).getD memSize =
      lowEnd memSize := by
  unfold guestRanges lowEnd Range.Has Range.stop
  split
  next hbig =>
    rw [List.find?_cons_of_pos (by simp [MMIO_MEM_START])]
    exact (min_eq_right hbig.le).symm
  next hsmall =>
    rw [min_eq_left (not_lt.mp hsmall)]
    -- an empty region does not have the address; the size stands in for its length
    by_cases hpos : 0 < memSize
    · rw [List.find?_cons_of_pos (by simpa using hpos)]
      rfl
    · rw [List.find?_cons_of_neg (by simpa using hpos)]
      rfl

theorem loadInitrd_ok {r : Range}
    (h : loadInitrd L (guestRanges memSize) size memSize = .ok r) :
    size ≤ lowEnd memSize ∧ r = initrdRange memSize size := by
  unfold loadInitrd at h
  rw [find_low] at h
  dsimp only at h
  split at h
  · contradiction
  next hsize =>
    obtain ⟨_, _, hr⟩ := bind_ok.mp h
    exact ⟨not_lt.mp hsize, (Except.ok.inj hr).symm⟩

def e820Map (memSize : Nat) : List E820Entry :=
  [⟨⟨0, SYSTEM_MEM_START⟩, .ram⟩, ⟨⟨SYSTEM_MEM_START, SYSTEM_MEM_SIZE⟩, .reserved⟩,
    ⟨⟨HIMEM_START, wrappingSub (lowEnd memSize) HIMEM_START⟩, .ram⟩] ++
  if memSize > MMIO_MEM_START then
    [⟨⟨FIRST_ADDR_PAST_32BITS, memSize - MMIO_MEM_START⟩, .ram⟩] else []

theorem buildE820Map_eq : buildE820Map memSize = .ok (e820Map memSize) := by
  unfold buildE820Map e820Map
  by_cases hbig : memSize > MMIO_MEM_START
  · simp only [if_pos hbig]
    rfl
  · simp only [if_neg hbig]
    rfl

def effectiveCmdline (cmdline : String) (allowEgress : Bool) : String :=
  if allowEgress then cmdline ++ " tdvmm.egress=1" else cmdline

theorem configureSystem_ok {numCpus : Nat} {out : Nat × List E820Entry} (hL : L.Documented)
    (h : configureSystem L mem cmdline memSize numCpus = .ok out) :
    (∃ line, L.cstring cmdline = .ok line ∧ out = (line.length, e820Map memSize)) ∧
      ∃ region ∈ mem, (mpTable numCpus).Within region := by
  obtain ⟨line, hline, h⟩ := bind_ok.mp h
  obtain ⟨_, _, h⟩ := bind_ok.mp h
  obtain ⟨_, hmp, h⟩ := bind_ok.mp h
  obtain ⟨e820, he820, h⟩ := bind_ok.mp h
  obtain ⟨_, _, h⟩ := bind_ok.mp h
  rw [buildE820Map_eq] at he820
  refine ⟨⟨line, context_ok hline, ?_⟩, hL.write_within _ _ (context_ok hmp) ?_⟩
  · rw [← Except.ok.inj h, Except.ok.inj he820]
  · show 0 < mpSize numCpus
    unfold mpSize
    omega

/-- Everything a boot that succeeds has laid out, by its inputs. -/
theorem bootSetup_ok (hL : L.Documented)
    (h : bootSetup L memMib kernel initrd cmdline allowEgress = .ok b) :
    ∃ loaded line,
      L.loadElf (guestRanges (memSizeOf memMib)) kernel HIMEM_START = .ok loaded ∧
      L.cstring (effectiveCmdline cmdline allowEgress) = .ok line ∧
      memSizeOf memMib ≤ MAX_GUEST_MEM ∧ initrd.length ≤ lowEnd (memSizeOf memMib) ∧
      (∃ region ∈ guestRanges (memSizeOf memMib), (mpTable 1).Within region) ∧
      b = { regions := guestRanges (memSizeOf memMib), kernel := loaded
            initrd := initrdRange (memSizeOf memMib) initrd.length
            cmdlineSize := line.length, e820 := e820Map (memSizeOf memMib) } := by
  obtain ⟨mem, hmem, h⟩ := bind_ok.mp h
  obtain ⟨hsize, rfl⟩ := createGuestMemory_ok hmem
  obtain ⟨loaded, hloaded, h⟩ := bind_ok.mp h
  obtain ⟨r, hr, h⟩ := bind_ok.mp h
  obtain ⟨hfits, rfl⟩ := loadInitrd_ok hr
  obtain ⟨_, _, h⟩ := bind_ok.mp h
  obtain ⟨out, hout, h⟩ := bind_ok.mp h
  obtain ⟨⟨line, hline, rfl⟩, hmp⟩ := configureSystem_ok hL hout
  exact ⟨loaded, line, context_ok hloaded, hline, hsize, hfits, hmp, (Except.ok.inj h).symm⟩

end Outcome

/-! ## The layout -/

/-- The reserved range: the system data, up to where the RSDP would be. -/
def systemData : Range := ⟨SYSTEM_MEM_START, SYSTEM_MEM_SIZE⟩

/-- What lies between it and the start of high RAM. It is backed, but not in the map. -/
def biosArea : Range := ⟨RSDP_ADDR, HIMEM_START - RSDP_ADDR⟩

def fixedParts (cmdlineSize : Nat) : List (List Range) :=
  [[gdt, pageTables], [zeroPage], [⟨CMDLINE_START, cmdlineSize⟩], [mpTable 1]]

namespace Booted

/-- The parts of a boot, and what each occupies. -/
def parts (b : Booted) : List (List Range) :=
  [b.initrd] :: b.kernel.image :: fixedParts b.cmdlineSize

def Ram (b : Booted) (x : Nat) : Prop := ∃ e ∈ b.e820, e.type = .ram ∧ e.range.Has x

def Backed (b : Booted) (x : Nat) : Prop := ∃ r ∈ b.regions, r.Has x

/-- The initramfs lies in one RAM entry below 4 GiB. -/
def InitrdInRam (b : Booted) : Prop :=
  ∃ e ∈ b.e820, e.type = .ram ∧ b.initrd.Within e.range ∧ e.range.stop ≤ FIRST_ADDR_PAST_32BITS

end Booted

def PartsApart (parts : List (List Range)) : Prop :=
  parts.Pairwise fun p q => ∀ r ∈ p, ∀ s ∈ q, r.Apart s

/-- How the parts of a boot lie in memory. -/
structure Layout (b : Booted) : Prop where
  /-- The RAM entries are the guest memory below and above the system data and the BIOS area. -/
  ram : ∀ x, b.Ram x ↔ b.Backed x ∧ ¬ systemData.Has x ∧ ¬ biosArea.Has x
  /-- The initramfs is in the low region, and above the first megabyte in its RAM entry. -/
  low : ∃ r ∈ b.regions, b.initrd.Within r ∧ r.stop ≤ FIRST_ADDR_PAST_32BITS
  initrd : HIMEM_START ≤ b.initrd.start → b.InitrdInRam
  fixed : PartsApart (fixedParts b.cmdlineSize)
  /-- Each image is apart from the fixed parts once it is in high RAM. -/
  initrd_apart : HIMEM_START ≤ b.initrd.start →
    PartsApart ([b.initrd] :: fixedParts b.cmdlineSize)
  kernel_apart : (∀ r ∈ b.kernel.image, HIMEM_START ≤ r.start) →
    PartsApart (b.kernel.image :: fixedParts b.cmdlineSize)
  /-- All are apart where the kernel moreover ends below the initramfs. -/
  apart : (∀ r ∈ b.kernel.image, HIMEM_START ≤ r.start ∧ r.stop ≤ b.initrd.start) →
    HIMEM_START ≤ b.initrd.start → PartsApart b.parts

section Layout

variable {L : Loader} {memMib memSize size cmdlineSize : Nat} {kernel initrd : Bytes}
  {cmdline : String} {allowEgress : Bool} {b : Booted}

theorem himem_le_lowEnd
    (h : ∃ region ∈ guestRanges (memSizeOf memMib), (mpTable 1).Within region) :
    HIMEM_START ≤ lowEnd (memSizeOf memMib) := by
  -- a boot that could write its MP table has the whole first megabyte
  obtain ⟨region, hregion, hstart, hstop⟩ := h
  unfold guestRanges at hregion
  simp only [mpTable, mpSize, Range.stop, SYSTEM_MEM_START] at hstart hstop
  unfold lowEnd HIMEM_START
  split at hregion
  next hbig =>
    unfold MMIO_MEM_START at hbig ⊢
    omega
  next hsmall =>
    rw [List.mem_singleton.mp hregion] at hstop
    unfold memSizeOf at hstop hsmall ⊢
    unfold MMIO_MEM_START at hsmall ⊢
    dsimp only at hstop
    omega

theorem wrappingSub_lowEnd (h : HIMEM_START ≤ lowEnd memSize) :
    wrappingSub (lowEnd memSize) HIMEM_START = lowEnd memSize - HIMEM_START := by
  unfold wrappingSub
  unfold lowEnd MMIO_MEM_START HIMEM_START at *
  omega

theorem mem_ram {x : Nat} (hlow : HIMEM_START ≤ lowEnd memSize) :
    (∃ e ∈ e820Map memSize, e.type = .ram ∧ e.range.Has x) ↔
      x < SYSTEM_MEM_START ∨ (HIMEM_START ≤ x ∧ x < lowEnd memSize) ∨
        (FIRST_ADDR_PAST_32BITS ≤ x ∧
          x < FIRST_ADDR_PAST_32BITS + (memSize - MMIO_MEM_START)) := by
  -- the RAM entries: low memory up to the system data, high memory, and what lies above 4 GiB
  unfold e820Map
  rw [wrappingSub_lowEnd hlow]
  unfold Range.Has Range.stop
  split
  next hbig =>
    simp only [List.cons_append, List.nil_append, List.mem_cons, List.not_mem_nil, or_false,
      exists_eq_or_imp, exists_eq_left, reduceCtorEq, false_and, false_or, true_and]
    omega
  next hsmall =>
    simp only [List.append_nil, List.mem_cons, List.not_mem_nil, or_false, exists_eq_or_imp,
      exists_eq_left, reduceCtorEq, false_and, false_or, true_and]
    omega

theorem mem_backed {x : Nat} :
    (∃ r ∈ guestRanges memSize, r.Has x) ↔ x < lowEnd memSize ∨
      (FIRST_ADDR_PAST_32BITS ≤ x ∧
        x < FIRST_ADDR_PAST_32BITS + (memSize - MMIO_MEM_START)) := by
  unfold guestRanges lowEnd Range.Has Range.stop
  split
  next hbig =>
    simp only [List.mem_cons, List.not_mem_nil, or_false, exists_eq_or_imp, exists_eq_left]
    omega
  next hsmall =>
    simp only [List.mem_singleton, exists_eq_left]
    omega

theorem ram_iff_backed {x : Nat} (hlow : HIMEM_START ≤ lowEnd memSize) :
    (∃ e ∈ e820Map memSize, e.type = .ram ∧ e.range.Has x) ↔
      (∃ r ∈ guestRanges memSize, r.Has x) ∧ ¬ systemData.Has x ∧ ¬ biosArea.Has x := by
  rw [mem_ram hlow, mem_backed]
  unfold systemData biosArea Range.Has Range.stop
  unfold lowEnd at *
  simp only [SYSTEM_MEM_START, SYSTEM_MEM_SIZE, RSDP_ADDR, HIMEM_START, FIRST_ADDR_PAST_32BITS,
    MMIO_MEM_START] at *
  omega

theorem initrd_in_low (hfits : size ≤ lowEnd memSize) :
    ∃ r ∈ guestRanges memSize, (initrdRange memSize size).Within r ∧
      r.stop ≤ FIRST_ADDR_PAST_32BITS := by
  have hmem : ⟨0, lowEnd memSize⟩ ∈ guestRanges memSize := by
    unfold guestRanges lowEnd
    split
    next hbig => simp [min_eq_right hbig.le]
    next hsmall => simp [min_eq_left (not_lt.mp hsmall)]
  have hgap : lowEnd memSize ≤ MMIO_MEM_START := min_le_right _ _
  refine ⟨_, hmem, ?_, ?_⟩
  · unfold initrdRange Range.Within Range.stop
    dsimp only
    omega
  · unfold Range.stop
    simp only [FIRST_ADDR_PAST_32BITS, MMIO_MEM_START] at *
    omega

theorem initrd_in_ram (hlow : HIMEM_START ≤ lowEnd memSize) (hfits : size ≤ lowEnd memSize)
    (hstart : HIMEM_START ≤ (initrdRange memSize size).start) :
    ∃ e ∈ e820Map memSize, e.type = .ram ∧ (initrdRange memSize size).Within e.range ∧
      e.range.stop ≤ FIRST_ADDR_PAST_32BITS := by
  have hgap : lowEnd memSize ≤ MMIO_MEM_START := min_le_right _ _
  refine ⟨⟨⟨HIMEM_START, lowEnd memSize - HIMEM_START⟩, .ram⟩, ?_, rfl, ⟨hstart, ?_⟩, ?_⟩
  · unfold e820Map
    rw [wrappingSub_lowEnd hlow]
    simp
  · unfold initrdRange Range.stop
    dsimp only
    omega
  · unfold Range.stop
    simp only [HIMEM_START, FIRST_ADDR_PAST_32BITS, MMIO_MEM_START] at *
    omega

theorem fixedParts_apart (hsize : cmdlineSize ≤ CMDLINE_MAX_SIZE) :
    PartsApart (fixedParts cmdlineSize) := by
  simp only [PartsApart, fixedParts, List.pairwise_cons, List.mem_cons, List.not_mem_nil, or_false,
    forall_eq_or_imp, forall_eq, List.Pairwise.nil, IsEmpty.forall_iff, implies_true, and_true,
    Range.apart_iff, Range.stop, gdt, pageTables, zeroPage, mpTable, mpSize]
  simp only [BOOT_GDT_OFFSET, PML4_START, ZERO_PAGE_START, CMDLINE_START, SYSTEM_MEM_START,
    CMDLINE_MAX_SIZE] at *
  omega

theorem fixedParts_below (hsize : cmdlineSize ≤ CMDLINE_MAX_SIZE) {part : List Range} {r : Range}
    (hpart : part ∈ fixedParts cmdlineSize) (hr : r ∈ part) : r.stop ≤ HIMEM_START := by
  have hmem : r ∈ (fixedParts cmdlineSize).flatten := List.mem_flatten.mpr ⟨part, hpart, hr⟩
  simp only [fixedParts, List.flatten_cons, List.flatten_nil, List.cons_append, List.nil_append,
    List.mem_cons, List.not_mem_nil, or_false] at hmem
  rcases hmem with rfl | rfl | rfl | rfl | rfl <;>
    simp only [Range.stop, gdt, pageTables, zeroPage, mpTable, mpSize, BOOT_GDT_OFFSET,
      PML4_START, ZERO_PAGE_START, CMDLINE_START, SYSTEM_MEM_START, CMDLINE_MAX_SIZE,
      HIMEM_START] at * <;> omega

theorem apart_of_above {part : List Range} (hsize : cmdlineSize ≤ CMDLINE_MAX_SIZE)
    (habove : ∀ r ∈ part, HIMEM_START ≤ r.start) : PartsApart (part :: fixedParts cmdlineSize) := by
  refine List.pairwise_cons.mpr ⟨?_, fixedParts_apart hsize⟩
  intro other hother r hr s hs
  have hbelow := fixedParts_below hsize hother hs
  exact Range.apart_iff.mpr (.inr (.inr (.inr (hbelow.trans (habove r hr)))))

theorem parts_apart (hsize : b.cmdlineSize ≤ CMDLINE_MAX_SIZE)
    (himage : ∀ r ∈ b.kernel.image, HIMEM_START ≤ r.start ∧ r.stop ≤ b.initrd.start)
    (hstart : HIMEM_START ≤ b.initrd.start) : PartsApart b.parts := by
  -- from the bottom up: the fixed parts, the kernel, the initramfs
  refine List.pairwise_cons.mpr ⟨?_, apart_of_above hsize fun r hr => (himage r hr).1⟩
  have hfixed := (List.pairwise_cons.mp (@apart_of_above _ [b.initrd] hsize (by simpa))).1
  intro part hpart r hr s hs
  rcases List.mem_cons.mp hpart with rfl | hpart
  · rw [List.mem_singleton.mp hr]
    exact Range.apart_iff.mpr (.inr (.inr (.inr (himage s hs).2)))
  · exact hfixed part hpart r hr s hs

end Layout

/-! ## Two boots of a small guest -/

/-- A vmlinux with one segment: 8 MiB at 1 MiB, of which the file has the headers. -/
def smallKernel : Bytes :=
  -- the ELF header: a 64-bit executable for x86-64, entered at 1 MiB
  [0x7f, 0x45, 0x4c, 0x46, 2, 1, 1] ++ List.replicate 9 0 ++ [2, 0, 0x3e, 0, 1, 0, 0, 0] ++
    [0, 0, 0x10, 0, 0, 0, 0, 0] ++ 64 :: List.replicate 15 0 ++
    [0, 0, 0, 0, 64, 0, 56, 0, 1, 0, 0, 0, 0, 0, 0, 0] ++
  -- its program header
    [1, 0, 0, 0, 5, 0, 0, 0] ++ List.replicate 8 0 ++ [0, 0, 0x10, 0, 0, 0, 0, 0] ++
    [0, 0, 0x10, 0, 0, 0, 0, 0] ++ 120 :: List.replicate 7 0 ++ [0, 0, 0x80, 0, 0, 0, 0, 0] ++
    [0, 0x10, 0, 0, 0, 0, 0, 0]

/-- A loader that knows this kernel only. -/
def smallLoader : Loader where
  fromRanges _ := .ok ()
  write regions r :=
    if ∃ region ∈ regions, r.Within region then .ok () else .error "invalid guest address"
  loadElf _ kernel _ :=
    if kernel = smallKernel then .ok ⟨0x100000, [⟨0x100000, 0x800000⟩]⟩
    else .error "unable to read elf header"
  cstring line :=
    if line.utf8ByteSize < CMDLINE_MAX_SIZE then .ok (line.toUTF8.data.toList ++ [0])
    else .error "too large"

theorem smallLoader_documented : smallLoader.Documented := by
  constructor
  · intro regions r h _
    by_contra hnot
    rw [show smallLoader.write regions r = .error "invalid guest address" from if_neg hnot] at h
    contradiction
  · intro line bytes h
    by_cases hshort : line.utf8ByteSize < CMDLINE_MAX_SIZE
    · rw [show smallLoader.cstring line = .ok (line.toUTF8.data.toList ++ [0]) from
        if_pos hshort] at h
      rw [← Except.ok.inj h]
      simpa [Nat.add_one_le_iff] using hshort
    · rw [show smallLoader.cstring line = .error "too large" from if_neg hshort] at h
      contradiction

/-- 16 MiB with this kernel and an initramfs of the given size. -/
def smallBooted (size : Nat) : Booted where
  regions := [⟨0, 0x1000000⟩]
  kernel := ⟨0x100000, [⟨0x100000, 0x800000⟩]⟩
  initrd := ⟨0x1000000 - size, size⟩
  cmdlineSize := 14
  e820 := [⟨⟨0, 0x9fc00⟩, .ram⟩, ⟨⟨0x9fc00, 0x40400⟩, .reserved⟩, ⟨⟨0x100000, 0xf00000⟩, .ram⟩]

theorem smallBoot_ok {size : Nat} (hsize : size = 0xf80000 ∨ size = 0x400000) :
    bootSetup smallLoader 16 smallKernel (List.replicate size 0) "console=ttyS0" false =
      .ok (smallBooted size) := by
  have hboot : (bootSetup smallLoader 16 smallKernel (List.replicate size 0) "console=ttyS0"
      false).toOption = some (smallBooted size) := by
    simp only [bootSetup, List.length_replicate]
    rcases hsize with rfl | rfl <;> decide +kernel
  rcases h : bootSetup smallLoader 16 smallKernel (List.replicate size 0) "console=ttyS0" false with
    e | b
  · rw [h] at hboot
    contradiction
  · rw [h] at hboot
    rw [Option.some.inj hboot]

end Tdvmm.Vmm.Boot
