import Tmee.PythonExample.MemFile

set_option relaxedAutoImplicit false
set_option autoImplicit false

/-!
# The lock of a file in Python and in C

Besides the functions for a mapping, `python_example/mem_file.py` has `lock_buffer_file` and
`free_buffer_lock_file` for an open file, which are meant to be the test-and-set lock of
`mem_file.c` on the same bytes. They are not. What `read(1)` returns is bytes, which are never equal
to a number, so no test finds the lock taken or free; and the argument of `bytes` is a length, so
the byte that is written to take the lock is a zero, and nothing is written to give it back.

## Main definitions

* `Tmee.Python.PyFile` — an open file.
* `Tmee.Python.lockBufferFile`, `Tmee.Python.freeBufferLockFile` — the functions of the Python file.
* `Tmee.Python.LockCall.act` — the calls in C, on plain bytes.
* `Tmee.Python.LocksLikeC` — the Python calls do what the calls in C do.

## Main results

* `Tmee.Python.c_eq_act` — the calls in C on a mapping.
* `Tmee.Python.pythonCalls_eq` — what the Python calls do in any sequence.
* `Tmee.Python.locksLikeC_iff` — no Python call does what the call in C does.
-/

namespace Tmee.Python

open ByteMem

/-- A file that is open for reading and writing bytes. -/
structure PyFile where
  bytes : List UInt8
  pos : ℕ
  deriving DecidableEq

/-- Code that works on one file and may raise an exception. -/
abbrev FileM := EStateM PyError PyFile

/-! ## Files -/

namespace PyFile

def tell : FileM ℕ := fun f => .ok f.pos f

/-- A position beyond the end is allowed. -/
def seek (pos : ℕ) : FileM Unit := fun f => .ok () { f with pos := pos }

/-- At most `n` bytes from the position on. -/
def read (n : ℕ) : FileM (List UInt8) := fun f =>
  let bs := window f.bytes f.pos n
  .ok bs { f with pos := f.pos + bs.length }

/-- The bytes after a write at a position: a gap before it is filled with zeros, and the file grows
as it has to. -/
def written (bytes : List UInt8) (pos : ℕ) : List UInt8 → List UInt8
  | [] => bytes
  | bs => (bytes.rightpad pos 0).take pos ++ bs ++ bytes.drop (pos + bs.length)

def write (bs : List UInt8) : FileM Unit := fun f =>
  .ok () { bytes := written f.bytes f.pos bs, pos := f.pos + bs.length }

end PyFile

/-- The two kinds of values that are compared. -/
inductive PyValue
  | bytes (bs : List UInt8)
  | int (i : ℤ)
  deriving DecidableEq

/-- `bytes(n)`: as many zeros. -/
def bytesOfLength (n : ℕ) : List UInt8 := List.replicate n 0

/-! ## The lock -/

/-- With `spin` the call reads again as long as the byte is one. Nobody else changes the file, so
it would never end. -/
def lockBufferFile (spin : Bool) : FileM ℤ := do
  let old ← PyFile.tell
  PyFile.seek semaphorePos
  let semaphore ← PyFile.read 1
  if spin = false ∧ PyValue.bytes semaphore = PyValue.int 1 then
    PyFile.seek old
    return -1
  else if PyValue.bytes semaphore = PyValue.int 1 then
    throw .waits
  else
    PyFile.seek semaphorePos
    PyFile.write (bytesOfLength 1)
    PyFile.seek old
    return 0

def freeBufferLockFile : FileM ℤ := do
  let old ← PyFile.tell
  PyFile.seek semaphorePos
  let semaphore ← PyFile.read 1
  if PyValue.bytes semaphore = PyValue.int 0 then
    PyFile.seek old
    return -1
  else
    PyFile.seek semaphorePos
    PyFile.write (bytesOfLength 0)
    PyFile.seek old
    return 0

/-- A call of one of the two functions, without waiting. -/
inductive LockCall
  | lock | free
  deriving DecidableEq, Repr

namespace LockCall

/-- The call in Python. -/
def python : LockCall → FileM ℤ
  | lock => lockBufferFile false
  | free => freeBufferLockFile

/-- The call in C. -/
def c : LockCall → BufM ℤ
  | lock => Tmee.lockBuffer 0
  | free => Tmee.freeBufferLock

/-- **The call in C on plain bytes**: the result and the bytes after it. -/
def act : LockCall → List UInt8 → ℤ × List UInt8
  | lock, bytes =>
    if bytes.getD semaphorePos 0 ≠ 0 then (-1, bytes) else (0, bytes.set semaphorePos 1)
  | free, bytes =>
    if bytes.getD semaphorePos 0 = 0 then (-1, bytes) else (0, bytes.set semaphorePos 0)

end LockCall

/-- One call after another: each returns what the call in C returns, leaves the bytes that it
leaves, and leaves the position of the file where it was. -/
def ActsAsLock (f : PyFile) : List LockCall → Prop
  | [] => True
  | call :: calls => ∃ f', call.python f = .ok (call.act f.bytes).1 f' ∧
      f'.bytes = (call.act f.bytes).2 ∧ f'.pos = f.pos ∧ ActsAsLock f' calls

/-- A call that waits does not return while the byte is one. -/
def WaitsWhileTaken (f : PyFile) : Prop :=
  f.bytes[semaphorePos]? = some 1 → ∀ v f', lockBufferFile true f ≠ .ok v f'

/-- **The Python calls do what the calls in C do.** -/
def LocksLikeC (f : PyFile) (calls : List LockCall) : Prop :=
  ActsAsLock f calls ∧ WaitsWhileTaken f

/-! ## The calls in C -/

section C

variable {b : Buffer}

/-- The integer in the semaphore byte is zero if and only if the byte is. -/
lemma lock_eq_zero_iff (hlen : semaphorePos < b.length) :
    b.lock = 0 ↔ b.bytes.getD semaphorePos 0 = 0 := by
  have hwindow : window b.bytes semaphorePos 1 = [b.bytes[semaphorePos]] := by
    rw [window, List.drop_eq_getElem_cons hlen]
    rfl
  have hget : b.bytes.getD semaphorePos 0 = b.bytes[semaphorePos] :=
    List.getD_eq_getElem _ _ hlen
  rw [Buffer.lock, ← decode_one_eq_iff hlen le_rfl (by decide), hwindow, hget,
    ← UInt8.toNat_inj]
  simp [decode]

/-- **The calls in C on a mapping** do what `LockCall.act` does, and the one that waits does not
return while the byte is set. -/
theorem c_eq_act (hlen : semaphorePos < b.length) :
    (∀ call : LockCall, ∃ b', call.c b = .ok ((call.act b.bytes).1, b') ∧
      b'.bytes = (call.act b.bytes).2) ∧
    (b.bytes.getD semaphorePos 0 ≠ 0 → Tmee.lockBuffer 1 b = .error .blocked) := by
  have hload : load 1 semaphorePos b = .ok (b.lock, b) := load_eq_ok hlen
  refine ⟨fun call => ?_, fun htaken => ?_⟩
  · cases call with
    | lock =>
      rw [LockCall.c, LockCall.act, Tmee.lockBuffer, bufM_bind_ok hload, if_pos rfl]
      by_cases hfree : b.lock = 0
      · rw [if_neg (not_not_intro hfree), if_neg (not_not_intro ((lock_eq_zero_iff hlen).mp hfree)),
          bufM_bind_ok (store_eq_ok hlen)]
        exact ⟨_, rfl, rfl⟩
      · rw [if_pos hfree, if_pos (mt (lock_eq_zero_iff hlen).mpr hfree)]
        exact ⟨_, rfl, rfl⟩
    | free =>
      rw [LockCall.c, LockCall.act, Tmee.freeBufferLock, bufM_bind_ok hload]
      by_cases hfree : b.lock = 0
      · rw [if_pos hfree, if_pos ((lock_eq_zero_iff hlen).mp hfree)]
        exact ⟨_, rfl, rfl⟩
      · rw [if_neg hfree, if_neg (mt (lock_eq_zero_iff hlen).mpr hfree),
          bufM_bind_ok (store_eq_ok hlen)]
        exact ⟨_, rfl, rfl⟩
  · have hfree : b.lock ≠ 0 := mt (lock_eq_zero_iff hlen).mp htaken
    rw [Tmee.lockBuffer, bufM_bind_ok hload, if_neg one_ne_zero, if_pos hfree]
    rfl

end C

/-! ## The calls in Python -/

section Python

variable {f : PyFile}

/-- Bytes are never equal to a number. -/
lemma bytes_ne_int (bs : List UInt8) (i : ℤ) : PyValue.bytes bs ≠ PyValue.int i := by
  intro h
  cases h

/-- One byte that is written inside a file. -/
lemma written_singleton {bytes : List UInt8} {pos : ℕ} (hlen : pos < bytes.length) (x : UInt8) :
    PyFile.written bytes pos [x] = bytes.set pos x := by
  have hpad : bytes.rightpad pos 0 = bytes := by
    simp [List.rightpad, Nat.sub_eq_zero_of_le hlen.le]
  rw [PyFile.written, hpad, List.set_eq_take_append_cons_drop, if_pos hlen,
    List.append_assoc]
  · rfl
  · exact List.cons_ne_nil x []

/-- **No call finds the lock taken.** Whether it would wait or not, it writes a zero and returns
zero. -/
lemma lockBufferFile_eq (hlen : semaphorePos < f.bytes.length) (spin : Bool) :
    lockBufferFile spin f = .ok 0 { f with bytes := f.bytes.set semaphorePos 0 } := by
  have htell : PyFile.tell f = .ok f.pos f := rfl
  have hseek : ∀ (g : PyFile) (p : ℕ), PyFile.seek p g = .ok () { g with pos := p } :=
    fun _ _ => rfl
  have hread : PyFile.read 1 { f with pos := semaphorePos } =
      .ok (window f.bytes semaphorePos 1) { f with pos := semaphorePos + 1 } := by
    rw [PyFile.read, length_window hlen]
  have hwrite : PyFile.write (bytesOfLength 1) { f with pos := semaphorePos } =
      .ok () { bytes := f.bytes.set semaphorePos 0, pos := semaphorePos + 1 } := by
    rw [PyFile.write, show bytesOfLength 1 = [0] from rfl, written_singleton hlen]
    rfl
  rw [lockBufferFile, bind_ok htell, bind_ok (hseek f _), bind_ok hread,
    if_neg fun h => bytes_ne_int _ _ h.2, if_neg (bytes_ne_int _ _), bind_ok (hseek _ _),
    bind_ok hwrite, bind_ok (hseek _ _)]
  rfl

/-- **No call finds the lock free**, and none changes anything. -/
lemma freeBufferLockFile_eq : freeBufferLockFile f = .ok 0 f := by
  have htell : PyFile.tell f = .ok f.pos f := rfl
  have hseek : ∀ (g : PyFile) (p : ℕ), PyFile.seek p g = .ok () { g with pos := p } :=
    fun _ _ => rfl
  have hread : PyFile.read 1 { f with pos := semaphorePos } =
      .ok (window f.bytes semaphorePos 1)
        { f with pos := semaphorePos + (window f.bytes semaphorePos 1).length } := rfl
  rw [freeBufferLockFile, bind_ok htell, bind_ok (hseek f _), bind_ok hread,
    if_neg (bytes_ne_int _ _), bind_ok (hseek _ _)]
  rfl

/-- The file after a call. -/
def PyFile.after (f : PyFile) : LockCall → PyFile
  | .lock => { f with bytes := f.bytes.set semaphorePos 0 }
  | .free => f

@[simp] lemma PyFile.pos_after (f : PyFile) (call : LockCall) : (f.after call).pos = f.pos := by
  cases call <;> rfl

@[simp] lemma PyFile.length_after (f : PyFile) (call : LockCall) :
    (f.after call).bytes.length = f.bytes.length := by
  cases call <;> simp [PyFile.after]

/-- **Step lemma**: a call in Python. -/
lemma python_eq (hlen : semaphorePos < f.bytes.length) (call : LockCall) :
    call.python f = .ok 0 (f.after call) := by
  cases call with
  | lock => exact lockBufferFile_eq hlen false
  | free => exact freeBufferLockFile_eq

/-- **The Python calls in any sequence.** All of them return zero. No position changes and no byte
but the semaphore byte, which is a zero as soon as the lock was ever taken and unchanged otherwise.

**Proof sketch.** Induction on the calls. One call returns zero and leaves the file as
`PyFile.after` says; of two zeros that are written one after the other the first makes no
difference. -/
theorem pythonCalls_eq (calls : List LockCall) (f : PyFile)
    (hlen : semaphorePos < f.bytes.length) :
    calls.mapM LockCall.python f =
      .ok (List.replicate calls.length 0) (if .lock ∈ calls then f.after .lock else f) := by
  induction calls generalizing f with
  | nil => rfl
  | cons call calls ih =>
    have hrest := ih (f.after call) (by simpa using hlen)
    rw [List.mapM_cons, bind_ok (python_eq hlen call), bind_ok hrest]
    cases call with
    | lock =>
      have hafter : (f.after .lock).after .lock = f.after .lock := by
        simp [PyFile.after, List.set_set]
      rw [hafter, ite_self, if_pos List.mem_cons_self]
      rfl
    | free =>
      have hmem : LockCall.lock ∈ LockCall.free :: calls ↔ LockCall.lock ∈ calls := by simp
      simp only [hmem]
      rfl

/-- A file with a byte at the place of the semaphore. -/
lemma semaphorePos_lt_of_getElem? {x : UInt8} (h : f.bytes[semaphorePos]? = some x) :
    semaphorePos < f.bytes.length := by
  by_contra hout
  rw [List.getElem?_eq_none (by omega)] at h
  cases h

/-- The first call of a sequence already differs from the call in C, whether the lock is taken or
free. -/
lemma not_actsAsLock_cons
    (hbyte : f.bytes[semaphorePos]? = some 0 ∨ f.bytes[semaphorePos]? = some 1) (call : LockCall)
    (calls : List LockCall) : ¬ ActsAsLock f (call :: calls) := by
  rintro ⟨f', hcall, hbytes, -⟩
  have hlen : semaphorePos < f.bytes.length :=
    hbyte.elim semaphorePos_lt_of_getElem? semaphorePos_lt_of_getElem?
  rw [python_eq hlen] at hcall
  obtain ⟨hresult, rfl⟩ := EStateM.Result.ok.inj hcall
  rcases hbyte with hfree | htaken
  · have hget : f.bytes.getD semaphorePos 0 = 0 := by rw [List.getD, hfree]; rfl
    cases call with
    | lock =>
      -- a zero was written where C writes a one
      rw [LockCall.act, if_neg (not_not_intro hget)] at hbytes
      have hcell := congrArg (·[semaphorePos]?) hbytes
      simp [PyFile.after, hlen] at hcell
    | free =>
      rw [LockCall.act, if_pos hget] at hresult
      simp at hresult
  · have hget : f.bytes.getD semaphorePos 0 ≠ 0 := by rw [List.getD, htaken]; decide
    cases call with
    | lock =>
      rw [LockCall.act, if_pos hget] at hresult
      simp at hresult
    | free =>
      -- nothing was written where C writes a zero
      rw [LockCall.act, if_neg hget] at hbytes
      have hcell : f.bytes[semaphorePos]? = some 0 := by
        simpa [PyFile.after, hlen] using congrArg (·[semaphorePos]?) hbytes
      rw [htaken] at hcell
      exact absurd hcell (by decide)

/-- The call that should wait returns at once. -/
lemma not_waitsWhileTaken (htaken : f.bytes[semaphorePos]? = some 1) : ¬ WaitsWhileTaken f :=
  fun hwaits => hwaits htaken _ _ (lockBufferFile_eq (semaphorePos_lt_of_getElem? htaken) true)

/-- **No Python call does what the call in C does**: of the sequences only the empty one is left,
and of the files those whose lock is free, on which no call has to wait.

**Proof sketch.** The first call of a sequence already differs, in its result or in the byte that it
leaves. A call that should wait returns at once, since it does not find the lock taken. -/
theorem locksLikeC_iff (f : PyFile) (calls : List LockCall)
    (hbyte : f.bytes[semaphorePos]? = some 0 ∨ f.bytes[semaphorePos]? = some 1) :
    LocksLikeC f calls ↔ calls = [] ∧ f.bytes[semaphorePos]? = some 0 := by
  constructor
  · rintro ⟨hacts, hwaits⟩
    refine ⟨?_, hbyte.resolve_right fun htaken => not_waitsWhileTaken htaken hwaits⟩
    cases calls with
    | nil => rfl
    | cons call calls => exact absurd hacts (not_actsAsLock_cons hbyte call calls)
  · rintro ⟨rfl, hfree⟩
    refine ⟨trivial, fun htaken => ?_⟩
    rw [hfree] at htaken
    exact absurd htaken (by decide)

end Python

/-- Sixteen bytes at their start, zeros but for the semaphore. -/
def headerFile (semaphore : UInt8) : PyFile where
  bytes := (List.replicate 16 0).set semaphorePos semaphore
  pos := 0

theorem locksLikeC_headerFile : LocksLikeC (headerFile 0) [] :=
  (locksLikeC_iff (headerFile 0) [] (Or.inl rfl)).mpr ⟨rfl, rfl⟩

/-- No call on such a file does what it should, and nothing waits. -/
theorem not_locksLikeC_call :
    (∀ call, ¬ LocksLikeC (headerFile 0) [call]) ∧ (∀ call, ¬ LocksLikeC (headerFile 1) [call]) ∧
      ¬ WaitsWhileTaken (headerFile 1) :=
  ⟨fun call h => not_actsAsLock_cons (Or.inl rfl) call [] h.1,
    fun call h => not_actsAsLock_cons (Or.inr rfl) call [] h.1, not_waitsWhileTaken rfl⟩

end Tmee.Python
