import ShareCompute.Library.Runs
import Mathlib.Algebra.BigOperators.Group.List.Basic
import Mathlib.Algebra.GroupWithZero.Nat
import Mathlib.Data.List.Nodup
import Mathlib.Data.List.Perm.Basic

namespace ShareCompute.Native

open ShareCompute.Library

/-!
# The RPC buffer budget

`llama-budget.patch`: the counters a worker keeps about the buffers its RPC service has
handed out.  The service handles one request at a time; every connection has an `rpc_server`
with a buffer set of its own, while the counters belong to the process.

The backend is an input: an allocation answers `nullptr` or a buffer whose size the backend
may have rounded, and a memory query answers what the device has.  All arithmetic is that of
`uint64_t`, so it wraps.

* `allocBuffer_cases` — the ways an allocation can end.
* `Live` — the live buffers of a history: granted, and neither freed nor torn down since.
* `BudgetInvariant` — the buffer sets hold exactly the live buffers, and the counter is the sum of
  their sizes and within the budget, so that neither the addition nor the subtraction ever wraps.
* `buffer_budget` — the law, over every history of every number of connections.
-/

/-! ### Buffers -/

/-- A buffer of the backend: its address and its size. -/
structure Buffer where
  remotePtr : UInt64
  size : UInt64
  nonnull : remotePtr ≠ 0
deriving DecidableEq

/-- A buffer in the set of an open connection. -/
structure LiveBuffer where
  connection : ℕ
  buffer : Buffer
deriving DecidableEq

/-- The answer `rpc_msg_alloc_buffer_rsp`, with the null address where nothing was granted. -/
structure AllocBufferRsp where
  remotePtr : UInt64
  remoteSize : UInt64
deriving DecidableEq

/-- The answer `rpc_msg_get_device_memory_rsp`, from which a client plans. -/
structure DeviceMemoryRsp where
  freeMem : UInt64
  totalMem : UInt64
deriving DecidableEq

/-- The process: its counters and the buffers of all open connections. -/
structure RpcService where
  /-- number of backends -/
  backends : ℕ
  /-- `sc_budget` -/
  budget : UInt64
  /-- `sc_used` -/
  used : UInt64
  /-- `sc_high` -/
  high : UInt64
  buffers : List LiveBuffer

namespace RpcService

/-- The service after `sc_rpc_set_budget`, before any connection. -/
def init (backends : ℕ) (budget : UInt64) : RpcService where
  backends := backends
  budget := budget
  used := 0
  high := 0
  buffers := []

/-! ### Requests -/

/-- `buffers.insert(buffer)`: the set of a connection holds a buffer once. -/
def insert (self : RpcService) (connection : ℕ) (buffer : Buffer) : List LiveBuffer :=
  if (⟨connection, buffer⟩ : LiveBuffer) ∈ self.buffers then self.buffers
  else ⟨connection, buffer⟩ :: self.buffers

/-- `rpc_server::alloc_buffer`, with the backend's answer to the request.  `none` is a
    `false` result, for a device that does not exist. -/
def allocBuffer (self : RpcService) (connection device : ℕ) (size : UInt64)
    (answer : Option Buffer) : RpcService × Option AllocBufferRsp :=
  if self.backends ≤ device then (self, none)
  else
    let remaining := self.budget - self.used
    if size > remaining then (self, some ⟨0, 0⟩)
    else
      match answer with
      | none => (self, some ⟨0, 0⟩)
      | some buffer =>
          -- the backend may have rounded the size up past what is left
          if buffer.size > remaining then (self, some ⟨0, 0⟩)
          else
            let used := self.used + buffer.size
            ({ self with
                buffers := self.insert connection buffer
                used := used
                high := if used > self.high then used else self.high },
              some ⟨buffer.remotePtr, buffer.size⟩)

/-- `rpc_server::free_buffer` of the buffer at an address, if it is in the connection's set. -/
def freeBuffer (self : RpcService) (connection : ℕ) (remotePtr : UInt64) : RpcService × Bool :=
  match self.buffers.find? (fun live =>
      live.connection = connection ∧ live.buffer.remotePtr = remotePtr) with
  | none => (self, false)
  | some live =>
      ({ self with
          used := self.used - live.buffer.size
          buffers := self.buffers.erase live }, true)

/-- The smaller of two numbers, as `std::min<uint64_t>` takes it. -/
def stdMin (a b : UInt64) : UInt64 := if b < a then b else a

/-- The smaller of two numbers is not above the second one. -/
theorem stdMin_le_right (a b : UInt64) : stdMin a b ≤ b := by
  unfold stdMin
  split
  · exact UInt64.le_refl _
  · next hle => exact UInt64.not_lt.mp hle

/-- `rpc_server::get_device_memory`, with what the device itself reports. -/
def getDeviceMemory (self : RpcService) (device : ℕ) (free total : UInt64) :
    Option DeviceMemoryRsp :=
  if self.backends ≤ device then none
  else some ⟨stdMin free (self.budget - self.used), stdMin total self.budget⟩

/-- `rpc_server::~rpc_server`: a connection ends and its buffers are freed one by one. -/
def teardown (self : RpcService) (connection : ℕ) : RpcService :=
  let mine := self.buffers.filter (fun live => live.connection = connection)
  { self with
    used := mine.foldl (fun used live => used - live.buffer.size) self.used
    buffers := self.buffers.filter (fun live => ¬ live.connection = connection) }

/-! ### The service as an object -/

/-- A request of a connection, with what the backend answers, or the end of a connection. -/
inductive Request
  | allocBuffer (connection device : ℕ) (size : UInt64) (answer : Option Buffer)
  | freeBuffer (connection : ℕ) (remotePtr : UInt64)
  | getDeviceMemory (device : ℕ) (free total : UInt64)
  | teardown (connection : ℕ)

/-- What a request is answered with, where it is answered at all. -/
inductive Response
  | allocated (response : Option AllocBufferRsp)
  | freed (found : Bool)
  | memory (response : Option DeviceMemoryRsp)
  | closed
deriving DecidableEq

/-- One request to the service, or the end of a connection, with what is answered. -/
def handle (self : RpcService) : Request → RpcService × Response
  | .allocBuffer connection device size answer =>
      ((self.allocBuffer connection device size answer).1,
        .allocated (self.allocBuffer connection device size answer).2)
  | .freeBuffer connection remotePtr =>
      ((self.freeBuffer connection remotePtr).1, .freed (self.freeBuffer connection remotePtr).2)
  | .getDeviceMemory device free total => (self, .memory (self.getDeviceMemory device free total))
  | .teardown connection => (self.teardown connection, .closed)

/-- The service as an object whose requests are handled one after the other. -/
def machine : Machine RpcService Request Response := ⟨handle⟩

/-! ### What each request does -/

/-- A free answers whether the connection has a buffer at the address. -/
theorem freeBuffer_found (self : RpcService) (connection : ℕ) (remotePtr : UInt64) :
    (self.freeBuffer connection remotePtr).2 = true ↔
      ∃ b ∈ self.buffers, b.connection = connection ∧ b.buffer.remotePtr = remotePtr := by
  rw [freeBuffer]
  split
  case h_1 hnone =>
    have hall := List.find?_eq_none.mp hnone
    simpa using hall
  case h_2 live hsome =>
    refine iff_of_true rfl ⟨live, List.mem_of_find?_eq_some hsome, ?_⟩
    simpa using List.find?_some hsome

/-- The bytes held by a list of live buffers, as a natural number. -/
def bytes (buffers : List LiveBuffer) : ℕ := (buffers.map (fun live => live.buffer.size.toNat)).sum

/-- No buffers have no bytes, where the induction over buffers begins. -/
@[simp] theorem bytes_nil : bytes [] = 0 := rfl

/-- The bytes of a list of buffers are those of the first one and of the others. -/
@[simp] theorem bytes_cons (live : LiveBuffer) (buffers : List LiveBuffer) :
    bytes (live :: buffers) = live.buffer.size.toNat + bytes buffers := rfl

/-- Taking a buffer out of a list takes its bytes out of the sum. -/
theorem bytes_erase {live : LiveBuffer} {buffers : List LiveBuffer} (h : live ∈ buffers) :
    live.buffer.size.toNat + bytes (buffers.erase live) = bytes buffers :=
  List.sum_map_erase (fun live => live.buffer.size.toNat) h

/-- The buffers of a connection and those of all others make up the whole. -/
theorem bytes_filter (buffers : List LiveBuffer) (connection : ℕ) :
    bytes (buffers.filter (fun live => live.connection = connection))
      + bytes (buffers.filter (fun live => ¬ live.connection = connection)) = bytes buffers := by
  induction buffers with
  | nil => rfl
  | cons live buffers ih =>
    simp only [decide_not] at ih ⊢
    by_cases h : live.connection = connection
    · simp [h]; omega
    · simp [h]; omega

/-- **The ways an allocation can end**: without a buffer and without a trace, or with one that
    fits what is left. -/
theorem allocBuffer_cases (self : RpcService) (connection device : ℕ) (size : UInt64)
    (answer : Option Buffer) :
    ((self.allocBuffer connection device size answer).1 = self ∧
      ∀ response, (self.allocBuffer connection device size answer).2 = some response →
        response = ⟨0, 0⟩) ∨
    ∃ buffer, answer = some buffer ∧ buffer.size ≤ self.budget - self.used ∧
      self.allocBuffer connection device size answer
        = ({ self with
              buffers := self.insert connection buffer
              used := self.used + buffer.size
              high := if self.used + buffer.size > self.high then self.used + buffer.size
                else self.high },
            some ⟨buffer.remotePtr, buffer.size⟩) := by
  unfold allocBuffer
  by_cases hdevice : self.backends ≤ device
  · exact .inl (by simp [hdevice])
  by_cases hsize : size > self.budget - self.used
  · exact .inl (by simp [hdevice, hsize, eq_comm])
  cases answer with
  | none => exact .inl (by simp [hdevice, hsize, eq_comm])
  | some buffer =>
    by_cases hrounded : buffer.size > self.budget - self.used
    · exact .inl (by simp [hdevice, hsize, hrounded, eq_comm])
    · exact .inr ⟨buffer, rfl, UInt64.not_lt.mp hrounded, by simp [hdevice, hsize, hrounded]⟩

/-- Freeing some of the buffers counted in `used` subtracts their sizes without wrapping. -/
theorem toNat_foldl_sub {mine : List LiveBuffer} {used : UInt64} (h : bytes mine ≤ used.toNat) :
    (mine.foldl (fun used live => used - live.buffer.size) used).toNat
      = used.toNat - bytes mine := by
  induction mine generalizing used with
  | nil => simp
  | cons live mine ih =>
    rw [bytes_cons] at h
    have hle : live.buffer.size ≤ used := UInt64.le_iff_toNat_le.mpr (by omega)
    have hsub := UInt64.toNat_sub_of_le used live.buffer.size hle
    rw [List.foldl_cons, ih (by omega), hsub, bytes_cons]
    omega

/-! ### Live buffers -/

/-- A handled request, with the states before and after it and the answer. -/
abbrev Handled := Entry RpcService Request Response

/-- The request was answered with the buffer: the backend allocated it, and the response has its
    address and its size. -/
def Grants (e : Handled) (live : LiveBuffer) : Prop :=
  ∃ device size, e.call = .allocBuffer live.connection device size (some live.buffer) ∧
    e.returned = .allocated (some ⟨live.buffer.remotePtr, live.buffer.size⟩)

/-- The request frees the buffer, or ends its connection. -/
def Releases (e : Handled) (live : LiveBuffer) : Prop :=
  e.call = .freeBuffer live.connection live.buffer.remotePtr ∨ e.call = .teardown live.connection

/-- **The live buffers of a history**: those that a request has granted and no later one has
    released. -/
def Live (h : List Handled) (live : LiveBuffer) : Prop :=
  ∃ before e after, h = before ++ e :: after ∧ Grants e live ∧ ∀ x ∈ after, ¬ Releases x live

/-- Nothing is live before the first request. -/
theorem not_live_nil (live : LiveBuffer) : ¬ Live [] live := by
  rintro ⟨before, e, after, heq, -⟩
  exact List.append_ne_nil_of_right_ne_nil before (List.cons_ne_nil e after) heq.symm

/-- One more request grants a buffer, or leaves it live by not releasing it. -/
theorem live_snoc (h : List Handled) (e : Handled) (live : LiveBuffer) :
    Live (h ++ [e]) live ↔ Grants e live ∨ (Live h live ∧ ¬ Releases e live) := by
  constructor
  · rintro ⟨before, granting, after, heq, hgrants, hkept⟩
    cases after using List.reverseRecOn with
    | nil =>
      obtain ⟨-, hsame⟩ := List.append_inj' heq rfl
      obtain rfl := List.singleton_injective hsame
      exact .inl hgrants
    | append_singleton after last =>
      rw [← List.cons_append, ← List.append_assoc] at heq
      obtain ⟨rfl, hsame⟩ := List.append_inj' heq rfl
      obtain rfl := List.singleton_injective hsame
      refine .inr ⟨⟨before, granting, after, rfl, hgrants, fun x hx => ?_⟩, ?_⟩
      · exact hkept x (List.mem_append_left _ hx)
      · exact hkept e (List.mem_append_right _ (List.mem_singleton_self e))
  · rintro (hgrants | ⟨⟨before, granting, after, rfl, hgrants, hkept⟩, hnot⟩)
    · exact ⟨h, e, [], rfl, hgrants, by simp⟩
    · refine ⟨before, granting, after ++ [e], by simp, hgrants, fun x hx => ?_⟩
      rcases List.mem_append.mp hx with hx | hx
      · exact hkept x hx
      · exact List.mem_singleton.mp hx ▸ hnot

/-- Only an allocation grants anything, so the other requests make no buffer live. -/
theorem not_grants {e : Handled} (h : ∀ connection device size answer,
    e.call ≠ .allocBuffer connection device size answer) (live : LiveBuffer) : ¬ Grants e live := by
  rintro ⟨device, size, hcall, -⟩
  exact h _ _ _ _ hcall

/-- An allocation that is answered with its buffer grants that one and no other. -/
theorem grants_iff {e : Handled} {connection device : ℕ} {size : UInt64} {buffer : Buffer}
    (hcall : e.call = .allocBuffer connection device size (some buffer))
    (hreturned : e.returned = .allocated (some ⟨buffer.remotePtr, buffer.size⟩))
    (b : LiveBuffer) : Grants e b ↔ b = ⟨connection, buffer⟩ := by
  constructor
  · rintro ⟨device', size', hcall', -⟩
    rw [hcall] at hcall'
    obtain ⟨rfl, -, -, heq⟩ := Request.allocBuffer.inj hcall'
    obtain rfl := Option.some.inj heq
    rfl
  · rintro rfl
    exact ⟨device, size, hcall, hreturned⟩

/-- Only a free and a teardown release anything. -/
theorem not_releases {e : Handled} (hfree : ∀ connection remotePtr,
    e.call ≠ .freeBuffer connection remotePtr) (hteardown : ∀ connection,
    e.call ≠ .teardown connection) (live : LiveBuffer) : ¬ Releases e live := by
  rintro (hcall | hcall)
  · exact hfree _ _ hcall
  · exact hteardown _ hcall

/-! ### The invariant -/

/-- The backend does not hand out the address of a live buffer again. -/
def Fresh (self : RpcService) : Request → Prop
  | .allocBuffer _ _ _ (some buffer) =>
      ∀ live ∈ self.buffers, live.buffer.remotePtr ≠ buffer.remotePtr
  | _ => True

/-- Whether an allocation answers an address that is not in use can be computed, so that histories
    can be evaluated. -/
instance (self : RpcService) : DecidablePred self.Fresh
  | .allocBuffer _ _ _ (some buffer) => inferInstanceAs
      (Decidable (∀ live ∈ self.buffers, live.buffer.remotePtr ≠ buffer.remotePtr))
  | .allocBuffer _ _ _ none | .freeBuffer .. | .getDeviceMemory .. | .teardown .. => isTrue trivial

/-- The buffer sets and the counters, told from the requests handled so far. -/
structure BudgetInvariant (budget : UInt64) (h : List Handled) (service : RpcService) : Prop where
  same_budget : service.budget = budget
  live : ∀ b, b ∈ service.buffers ↔ Live h b
  addresses : (service.buffers.map (fun live => live.buffer.remotePtr)).Nodup
  used : service.used.toNat = bytes service.buffers
  within : service.used.toNat ≤ budget.toNat
  used_le_high : service.used ≤ service.high
  high_bound : ∀ e ∈ h, e.after.used ≤ service.high
  high_reached : service.high = 0 ∨ ∃ e ∈ h, e.after.used = service.high

variable {budget : UInt64} {h : List Handled} {self : RpcService}

/-- A service that was just started has handed out nothing, and its counter is zero. -/
theorem BudgetInvariant.init (backends : ℕ) (budget : UInt64) :
    BudgetInvariant budget [] (init backends budget) where
  same_budget := rfl
  live b := by simpa [RpcService.init] using not_live_nil b
  addresses := .nil
  used := rfl
  within := Nat.zero_le _
  used_le_high := UInt64.le_refl _
  high_bound := by simp
  high_reached := .inl rfl

/-- **The subtraction never wraps**, since the counter stays within the budget. -/
theorem BudgetInvariant.remaining (hinv : BudgetInvariant budget h self) :
    (self.budget - self.used).toNat = budget.toNat - self.used.toNat := by
  rw [hinv.same_budget]
  exact UInt64.toNat_sub_of_le _ _ (UInt64.le_iff_toNat_le.mpr hinv.within)

/-- A request after which no more is used, and which grants nothing and does not move the peak,
    keeps the invariant if the sets give up what it releases. -/
theorem BudgetInvariant.shrink (hinv : BudgetInvariant budget h self) {e : Handled}
    {self' : RpcService} (hafter : e.after = self') (hbudget : self'.budget = self.budget)
    (hhigh : self'.high = self.high) (hgrants : ∀ b, ¬ Grants e b)
    (hbuffers : ∀ b, b ∈ self'.buffers ↔ b ∈ self.buffers ∧ ¬ Releases e b)
    (hsublist : self'.buffers.Sublist self.buffers)
    (hused : self'.used.toNat = bytes self'.buffers)
    (hle : self'.used.toNat ≤ self.used.toNat) :
    BudgetInvariant budget (h ++ [e]) self' := by
  have hle' : self'.used ≤ self.high :=
    UInt64.le_trans (UInt64.le_iff_toNat_le.mpr hle) hinv.used_le_high
  have hlive : ∀ b, b ∈ self'.buffers ↔ Live (h ++ [e]) b := by
    intro b
    rw [live_snoc, or_iff_right (hgrants b), hbuffers, hinv.live]
  have haddresses : (self'.buffers.map (fun live => live.buffer.remotePtr)).Nodup :=
    hinv.addresses.sublist (hsublist.map _)
  refine ⟨hbudget.trans hinv.same_budget, hlive, haddresses, hused,
    Nat.le_trans hle hinv.within, hhigh ▸ hle', ?_, ?_⟩
  · intro x hx
    rw [hhigh]
    rcases List.mem_append.mp hx with hx | hx
    · exact hinv.high_bound x hx
    · obtain rfl := List.mem_singleton.mp hx
      rw [hafter]
      exact hle'
  · rw [hhigh]
    rcases hinv.high_reached with hzero | ⟨x, hx, hreached⟩
    · exact .inl hzero
    · exact .inr ⟨x, List.mem_append_left _ hx, hreached⟩

/-- A peak that is moved up to what is used now, if that is more, is what the counter has reached
    and never been above. -/
theorem BudgetInvariant.peak (hinv : BudgetInvariant budget h self) {e : Handled}
    (hhigh : e.after.high = if e.after.used > self.high then e.after.used else self.high) :
    e.after.used ≤ e.after.high ∧ (∀ x ∈ h ++ [e], x.after.used ≤ e.after.high) ∧
      (e.after.high = 0 ∨ ∃ x ∈ h ++ [e], x.after.used = e.after.high) := by
  by_cases hgt : e.after.used > self.high
  · rw [if_pos hgt] at hhigh
    rw [hhigh]
    refine ⟨UInt64.le_refl _, fun x hx => ?_, .inr ⟨e, by simp, rfl⟩⟩
    rcases List.mem_append.mp hx with hx | hx
    · exact UInt64.le_trans (hinv.high_bound x hx) (UInt64.le_of_lt hgt)
    · exact List.mem_singleton.mp hx ▸ UInt64.le_refl _
  · rw [if_neg hgt] at hhigh
    rw [hhigh]
    have hle := UInt64.not_lt.mp hgt
    refine ⟨hle, fun x hx => ?_, hinv.high_reached.imp_right ?_⟩
    · rcases List.mem_append.mp hx with hx | hx
      · exact hinv.high_bound x hx
      · exact List.mem_singleton.mp hx ▸ hle
    · rintro ⟨x, hx, hreached⟩
      exact ⟨x, List.mem_append_left _ hx, hreached⟩

/-- An allocation that is granted fits what is left, so the addition does not wrap either. -/
theorem BudgetInvariant.grow (hinv : BudgetInvariant budget h self) {e : Handled}
    {connection device : ℕ} {size : UInt64} {buffer : Buffer}
    (hcall : e.call = .allocBuffer connection device size (some buffer))
    (hreturned : e.returned = .allocated (some ⟨buffer.remotePtr, buffer.size⟩))
    (hfresh : ∀ live ∈ self.buffers, live.buffer.remotePtr ≠ buffer.remotePtr)
    (hfits : buffer.size ≤ self.budget - self.used)
    (hafter : e.after =
      { self with
        buffers := self.insert connection buffer
        used := self.used + buffer.size
        high := if self.used + buffer.size > self.high then self.used + buffer.size
          else self.high }) :
    BudgetInvariant budget (h ++ [e]) e.after := by
  have hfits' : buffer.size.toNat ≤ budget.toNat - self.used.toNat :=
    hinv.remaining ▸ UInt64.le_iff_toNat_le.mp hfits
  have hwithin := hinv.within
  -- there is no overflow, since the sum stays within the budget
  have hadd : (self.used + buffer.size).toNat = self.used.toNat + buffer.size.toNat := by
    rw [UInt64.toNat_add]
    exact Nat.mod_eq_of_lt (by have := budget.toNat_lt; omega)
  -- the address is not in use, so the set grows by the buffer
  have hinsert : self.insert connection buffer = ⟨connection, buffer⟩ :: self.buffers := by
    refine if_neg fun hmem => ?_
    exact hfresh _ hmem rfl
  have hused : e.after.used = self.used + buffer.size := by rw [hafter]
  have hbuffers : e.after.buffers = ⟨connection, buffer⟩ :: self.buffers := by
    rw [hafter]
    exact hinsert
  have hlive : ∀ b, b ∈ e.after.buffers ↔ Live (h ++ [e]) b := by
    intro b
    have hkept : ¬ Releases e b := not_releases (by simp [hcall]) (by simp [hcall]) b
    rw [live_snoc, hbuffers, List.mem_cons, grants_iff hcall hreturned, hinv.live,
      and_iff_left hkept]
  have haddresses : (e.after.buffers.map (fun live => live.buffer.remotePtr)).Nodup := by
    rw [hbuffers, List.map_cons, List.nodup_cons]
    refine ⟨fun hmem => ?_, hinv.addresses⟩
    obtain ⟨live, hlive, heq⟩ := List.mem_map.mp hmem
    exact hfresh live hlive heq
  obtain ⟨hpeak, hbound, hreached⟩ := hinv.peak (e := e) (by rw [hused, hafter])
  refine ⟨by rw [hafter]; exact hinv.same_budget, hlive, haddresses, ?_, ?_, hpeak, hbound,
    hreached⟩
  · rw [hused, hadd, hbuffers, bytes_cons, hinv.used, Nat.add_comm]
  · rw [hused, hadd]
    omega

/-- A request that changes nothing, and grants and releases none of the buffers. -/
theorem BudgetInvariant.same (hinv : BudgetInvariant budget h self) {e : Handled}
    (hafter : e.after = self) (hgrants : ∀ b, ¬ Grants e b)
    (hkept : ∀ b ∈ self.buffers, ¬ Releases e b) : BudgetInvariant budget (h ++ [e]) e.after :=
  hafter ▸ hinv.shrink hafter rfl rfl hgrants
    (fun b => (and_iff_left_of_imp (hkept b)).symm) (.refl _) hinv.used (Nat.le_refl _)

/-- The buffer that a free finds is the only one of the connection at the address, and taking it out
    of the set leaves all others. -/
theorem BudgetInvariant.mem_erase (hinv : BudgetInvariant budget h self) {live : LiveBuffer}
    (hmem : live ∈ self.buffers) (b : LiveBuffer) :
    b ∈ self.buffers.erase live ↔ b ∈ self.buffers ∧
      ¬ (b.connection = live.connection ∧ b.buffer.remotePtr = live.buffer.remotePtr) := by
  have hnodup : self.buffers.Nodup := List.Nodup.of_map _ hinv.addresses
  rw [hnodup.mem_erase_iff, and_comm]
  refine and_congr_right fun hb => not_congr ⟨fun heq => heq ▸ ⟨rfl, rfl⟩, fun hsame => ?_⟩
  exact List.inj_on_of_nodup_map hinv.addresses hb hmem hsame.2

/-- Freeing a buffer takes it out of its set and out of the live ones, and its bytes out of the
    counter; an unknown address changes nothing. -/
theorem BudgetInvariant.freeBuffer (hinv : BudgetInvariant budget h self) (connection : ℕ)
    (remotePtr : UInt64) :
    BudgetInvariant budget (h ++ [machine.entry self (.freeBuffer connection remotePtr)])
      (machine.entry self (.freeBuffer connection remotePtr)).after := by
  have hgrants : ∀ b, ¬ Grants (machine.entry self (.freeBuffer connection remotePtr)) b :=
    not_grants (by simp)
  have hreleases : ∀ b : LiveBuffer,
      Releases (machine.entry self (.freeBuffer connection remotePtr)) b ↔
        b.connection = connection ∧ b.buffer.remotePtr = remotePtr := by
    intro b
    simp only [Releases, Machine.entry_call, Request.freeBuffer.injEq, reduceCtorEq, or_false]
    exact and_congr eq_comm eq_comm
  cases hfind : self.buffers.find? (fun live =>
      live.connection = connection ∧ live.buffer.remotePtr = remotePtr) with
  | none =>
    refine hinv.same ?_ hgrants fun b hb hreleased => ?_
    · show (self.freeBuffer connection remotePtr).1 = self
      simp only [RpcService.freeBuffer, hfind]
    · have hnone := List.find?_eq_none.mp hfind b hb
      exact hnone (decide_eq_true ((hreleases b).mp hreleased))
  | some live =>
    have hmem := List.mem_of_find?_eq_some hfind
    have hfound : live.connection = connection ∧ live.buffer.remotePtr = remotePtr := by
      simpa using List.find?_some hfind
    have hbytes := bytes_erase hmem
    -- the size of a live buffer is part of the sum, so the subtraction does not wrap
    have hle : live.buffer.size ≤ self.used :=
      UInt64.le_iff_toNat_le.mpr (by have := hinv.used; omega)
    have hsub := UInt64.toNat_sub_of_le self.used live.buffer.size hle
    have hafter : (machine.entry self (.freeBuffer connection remotePtr)).after
        = { self with
            used := self.used - live.buffer.size
            buffers := self.buffers.erase live } := by
      show (self.freeBuffer connection remotePtr).1 = _
      simp only [RpcService.freeBuffer, hfind]
    rw [hafter]
    refine hinv.shrink hafter rfl rfl hgrants (fun b => ?_) List.erase_sublist ?_ ?_
    · rw [hreleases, ← hfound.1, ← hfound.2]
      exact hinv.mem_erase hmem b
    · show (self.used - live.buffer.size).toNat = bytes (self.buffers.erase live)
      rw [hsub, hinv.used]
      omega
    · show (self.used - live.buffer.size).toNat ≤ self.used.toNat
      omega

/-- When a connection ends, everything in its set is taken out of the live buffers and out of the
    counter. -/
theorem BudgetInvariant.teardown (hinv : BudgetInvariant budget h self) (connection : ℕ) :
    BudgetInvariant budget (h ++ [machine.entry self (.teardown connection)])
      (machine.entry self (.teardown connection)).after := by
  have hsplit := bytes_filter self.buffers connection
  have hmine : bytes (self.buffers.filter (fun live => live.connection = connection))
      ≤ self.used.toNat := by
    have := hinv.used
    omega
  have hsub := toNat_foldl_sub hmine
  refine hinv.shrink rfl rfl rfl (not_grants (by simp)) (fun b => ?_) List.filter_sublist ?_ ?_
  · show b ∈ self.buffers.filter (fun live => ¬ live.connection = connection) ↔ _
    have hreleases : Releases (machine.entry self (.teardown connection)) b ↔
        b.connection = connection := by
      simp only [Releases, Machine.entry_call, Request.teardown.injEq, reduceCtorEq, false_or]
      exact eq_comm
    rw [List.mem_filter, hreleases, decide_eq_true_eq]
  · show (List.foldl _ self.used _).toNat = bytes (self.buffers.filter _)
    rw [hsub, hinv.used]
    omega
  · show (List.foldl _ self.used _).toNat ≤ self.used.toNat
    rw [hsub]
    omega

/-- **Step lemma.**  One request keeps the invariant, if the backend answers no address that is
    still live. -/
theorem BudgetInvariant.handle (hinv : BudgetInvariant budget h self) (request : Request)
    (hfresh : self.Fresh request) :
    BudgetInvariant budget (h ++ [machine.entry self request])
      (machine.entry self request).after := by
  cases request with
  | allocBuffer connection device size answer =>
    rcases self.allocBuffer_cases connection device size answer with
      ⟨hsame, hrefused⟩ | ⟨buffer, rfl, hfits, heq⟩
    · refine hinv.same hsame ?_ fun b _ => not_releases (by simp) (by simp) b
      -- a response without an address grants nothing
      rintro b ⟨device', size', hcall, hreturned⟩
      have hzero := hrefused _ (Response.allocated.inj hreturned)
      exact b.buffer.nonnull (congrArg AllocBufferRsp.remotePtr hzero)
    · have hreturned : (self.allocBuffer connection device size (some buffer)).2
          = some ⟨buffer.remotePtr, buffer.size⟩ := congrArg Prod.snd heq
      exact hinv.grow rfl (congrArg Response.allocated hreturned) hfresh hfits
        (congrArg Prod.fst heq)
  | freeBuffer connection remotePtr => exact hinv.freeBuffer connection remotePtr
  | getDeviceMemory device free total =>
    exact hinv.same rfl (not_grants (by simp)) fun b _ => not_releases (by simp) (by simp) b
  | teardown connection => exact hinv.teardown connection

/-- **Run lemma.**  The invariant holds after every history of such requests. -/
theorem budgetInvariant_exec (backends : ℕ) (budget : UInt64) (requests : List Request)
    (hfresh : ∀ e ∈ machine.history (RpcService.init backends budget) requests,
      e.before.Fresh e.call) :
    BudgetInvariant budget (machine.history (RpcService.init backends budget) requests)
      (machine.exec (RpcService.init backends budget) requests) :=
  machine.run_induction (P := fun e => e.before.Fresh e.call) (I := BudgetInvariant budget)
    (.init backends budget)
    (fun _ _ request hinv hfresh => hinv.handle request hfresh) requests hfresh

/-! ### The law -/

/-- What the counters of a service mean after the requests `h`. -/
structure BudgetLaw (budget : UInt64) (h : List Handled) (service : RpcService) : Prop where
  /-- every response with an address grants a buffer, of that address and size -/
  granted : ∀ e ∈ h, ∀ connection device size answer response,
    e.call = .allocBuffer connection device size answer →
    e.returned = .allocated (some response) → response.remotePtr ≠ 0 →
    ∃ b : LiveBuffer, b.connection = connection ∧ Grants e b ∧
      response = ⟨b.buffer.remotePtr, b.buffer.size⟩
  /-- the buffer sets hold what has been granted and neither freed nor torn down since, once … -/
  live : ∀ b, b ∈ service.buffers ↔ Live h b
  nodup : service.buffers.Nodup
  /-- … so a free finds exactly the live buffers … -/
  freed : ∀ connection remotePtr, (service.freeBuffer connection remotePtr).2 = true ↔
    ∃ b, Live h b ∧ b.connection = connection ∧ b.buffer.remotePtr = remotePtr
  /-- … and the counter is the sum of their sizes … -/
  used : service.used.toNat = (service.buffers.map (fun live => live.buffer.size.toNat)).sum
  /-- … within the budget … -/
  within : service.used.toNat ≤ budget.toNat
  /-- … so `sc_budget - sc_used` is what remains of it … -/
  remaining : (service.budget - service.used).toNat = budget.toNat - service.used.toNat
  /-- … and no memory query reports more -/
  reported : ∀ device free total response,
    service.getDeviceMemory device free total = some response →
      response.freeMem.toNat ≤ budget.toNat - service.used.toNat
  /-- the peak is the largest value the counter has had -/
  peak_bound : ∀ e ∈ h, e.after.used ≤ service.high
  peak_reached : service.high = 0 ∨ ∃ e ∈ h, e.after.used = service.high
  /-- an allocation that grants no buffer leaves everything as it was -/
  refused : ∀ connection device size answer,
    (∀ response, (service.allocBuffer connection device size answer).2 = some response →
      response.remotePtr = 0) →
    (service.allocBuffer connection device size answer).1 = service

/-- **The buffer budget is kept**, over every history of requests of any number of
    connections, whatever sizes they ask for and the backend rounds them to, as long as the
    backend does not hand out the address of a live buffer again. -/
theorem buffer_budget (backends : ℕ) (budget : UInt64) (requests : List Request)
    (hfresh : ∀ e ∈ machine.history (RpcService.init backends budget) requests,
      e.before.Fresh e.call) :
    BudgetLaw budget (machine.history (RpcService.init backends budget) requests)
      (machine.exec (RpcService.init backends budget) requests) := by
  have hinv := budgetInvariant_exec backends budget requests hfresh
  refine ⟨?_, hinv.live, List.Nodup.of_map _ hinv.addresses, ?_, hinv.used, hinv.within,
    hinv.remaining, ?_, hinv.high_bound, hinv.high_reached, ?_⟩
  · -- an address is answered only for a buffer that is granted
    intro e he connection device size answer response hcall hreturned haddress
    obtain ⟨pre, request, post, -, rfl⟩ := machine.mem_history.mp he
    obtain rfl : request = _ := hcall
    have hresponse := Response.allocated.inj hreturned
    rcases allocBuffer_cases _ connection device size answer with
      ⟨-, hrefused⟩ | ⟨buffer, rfl, -, heq⟩
    · rw [hrefused response hresponse] at haddress
      exact absurd rfl haddress
    · have hbuffer : some ⟨buffer.remotePtr, buffer.size⟩ = some response :=
        (congrArg Prod.snd heq).symm.trans hresponse
      obtain rfl := Option.some.inj hbuffer
      exact ⟨⟨connection, buffer⟩, rfl, ⟨device, size, rfl, hreturned⟩, rfl⟩
  · -- what `free_buffer` finds is what is live
    intro connection remotePtr
    have hfind : ((machine.exec (RpcService.init backends budget) requests).freeBuffer connection
        remotePtr).2 = true ↔ ∃ b ∈ (machine.exec (RpcService.init backends budget)
          requests).buffers, b.connection = connection ∧ b.buffer.remotePtr = remotePtr := by
      rw [freeBuffer_found]
    rw [hfind]
    exact exists_congr fun b => and_congr_left' (hinv.live b)
  · -- the free memory is the remaining budget at the most
    intro device free total response hresponse
    unfold getDeviceMemory at hresponse
    split at hresponse
    · cases hresponse
    · obtain rfl := Option.some.inj hresponse
      rw [← hinv.remaining]
      exact UInt64.le_iff_toNat_le.mp (stdMin_le_right _ _)
  · -- a refusal leaves the service as it was
    intro connection device size answer hrefused
    rcases allocBuffer_cases _ connection device size answer with
      ⟨hsame, -⟩ | ⟨buffer, -, -, heq⟩
    · exact hsame
    · -- a granted buffer has an address
      exact absurd (hrefused _ (congrArg Prod.snd heq)) buffer.nonnull

/-- Two connections: a grant, a refusal, a rounded refusal, a free and a teardown. -/
theorem buffer_budget_two_connections :
    BudgetLaw 100
      (machine.history (RpcService.init 1 100)
        [.allocBuffer 0 0 40 (some ⟨16, 48, by decide⟩), .allocBuffer 1 0 60 none,
          .allocBuffer 1 0 50 (some ⟨32, 64, by decide⟩),
          .allocBuffer 1 0 50 (some ⟨32, 52, by decide⟩), .freeBuffer 0 16, .teardown 1])
      (machine.exec (RpcService.init 1 100)
        [.allocBuffer 0 0 40 (some ⟨16, 48, by decide⟩), .allocBuffer 1 0 60 none,
          .allocBuffer 1 0 50 (some ⟨32, 64, by decide⟩),
          .allocBuffer 1 0 50 (some ⟨32, 52, by decide⟩), .freeBuffer 0 16, .teardown 1]) := by
  exact buffer_budget 1 100 _ (by decide +kernel)

end RpcService

end ShareCompute.Native
