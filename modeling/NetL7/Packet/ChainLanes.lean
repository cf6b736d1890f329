import NetL7.Lib.LateLinks
import NetL7.Packet.ChainMemory

/-!
# Every chain is a queue handed over by links

For each flow the code, the ring and the hardware together are a queue that is handed
over by links: the jobs of the flow are its items, a flow on the pending list waits to be
handed over, an FD in the ring is the queue handed over, and an FRD that has not been
taken is the final item returned.
-/

namespace NetL7.Packet

open NetL7.Lib NlmDevice

namespace ChainRun

/-- The value of a link to a job. -/
def linkOf (d : NlmDevice) : Option ℕ → ℕ
  | none => 0
  | some j => d.pdIndex j

/-- What the hardware has read is what a copy says, and its cookie names `j`. -/
structure WalkShows (d : NlmDevice) (c : Copy ℕ) (j : ℕ) (w : Walk) : Prop where
  cookie : w.cookie = nlmEncodeCookie d.threadId j
  link : w.pdNlaIndex = linkOf d c.link
  cut : w.swDisconnect = c.cut
  own : w.scans = c.own

/-- The first job of a flow that waits to be handed over. -/
def pendingHead : Lane ℕ → Option ℕ
  | .pending rest => rest.head?
  | _ => none

/-- The FDs of a flow. -/
def FdsShow (d : NlmDevice) (fds : List HwFdDescriptor) : Lane ℕ → Prop
  | .sent c rest => ∃ fd j, fds = [fd] ∧ rest.head? = some j ∧ WalkShows d c j (.ofFd fd)
  | _ => fds = []

/-- What the hardware walks of a flow. -/
def WalksShow (d : NlmDevice) (walks : List Walk) : Lane ℕ → Prop
  | .walking _ cur c rest =>
      ∃ w j, walks = [w] ∧ (cur.or rest.head?) = some j ∧ WalkShows d c j w
  | _ => walks = []

/-- The state shows the queue of a flow. -/
structure Shows (s : ChainRun) (f : ℕ) (l : Lane ℕ) : Prop where
  ok : l.Ok
  running : s.running f = l.opened
  started : s.started f = s.scanned f ++ l.rest
  results : s.resultsOf f = l.results
  pending : s.t.device.pendingFlowList.count f = (pendingHead l).toList.length
  head : (s.t.device.flows f).pendingPdHead = (pendingHead l).map s.t.device.pdIndex
  fds : FdsShow s.t.device (s.fdsOf f) l
  walks : WalksShow s.t.device (s.walksOf f) l
  extensible : (∀ j ∈ s.running f, (s.t.device.pds (s.t.device.pdIndex j)).flowTerm = false) →
    l.Extensible

variable {s s' : ChainRun} {d d' : NlmDevice} {l : Lane ℕ} {f g i j p : ℕ} {w : Walk} {c : Copy ℕ}

theorem WalkShows.congr (h : WalkShows d c j w) (hthread : d'.threadId = d.threadId)
    (hindex : ∀ i ∈ c.link, d'.pdIndex i = d.pdIndex i) : WalkShows d' c j w := by
  refine ⟨hthread ▸ h.cookie, ?_, h.cut, h.own⟩
  rw [h.link]
  cases hlink : c.link with
  | none => rfl
  | some i => exact (hindex i hlink).symm

/-- The item a copy leads to is one that is left. -/
theorem copy_mem {rest : List ℕ} (hcopy : Lane.CopyOk c rest) (hi : i ∈ c.link) : i ∈ rest := by
  rcases hcopy with hnone | heq
  · rw [hnone] at hi
    cases hi
  · rw [heq] at hi
    exact List.mem_of_head? hi

theorem FdsShow.congr {fds : List HwFdDescriptor} (h : FdsShow d fds l) (hok : l.Ok)
    (hthread : d'.threadId = d.threadId) (hindex : ∀ i ∈ l.opened, d'.pdIndex i = d.pdIndex i) :
    FdsShow d' fds l := by
  cases l with
  | sent c rest =>
    obtain ⟨fd, j, hfds, hj, hshows⟩ := h
    refine ⟨fd, j, hfds, hj, hshows.congr hthread fun i hi ↦ hindex i ?_⟩
    rcases hok.2 with ⟨-, hcopy⟩ | ⟨-, -, -, hlink⟩
    · exact List.mem_of_mem_tail (copy_mem hcopy hi)
    · exact copy_mem (.inr hlink) hi
  | _ => exact h

theorem WalksShow.congr {walks : List Walk} (h : WalksShow d walks l) (hok : l.Ok)
    (hthread : d'.threadId = d.threadId) (hindex : ∀ i ∈ l.opened, d'.pdIndex i = d.pdIndex i) :
    WalksShow d' walks l := by
  cases l with
  | walking returned cur c rest =>
    obtain ⟨w, j, hwalks, hj, hshows⟩ := h
    refine ⟨w, j, hwalks, hj, hshows.congr hthread fun i hi ↦ hindex i ?_⟩
    refine List.mem_append_right _ ?_
    rcases hok with ⟨-, -, hcopy⟩ | ⟨-, -, -, -, hlink⟩
    · exact copy_mem hcopy hi
    · exact copy_mem (.inr hlink) hi
  | _ => exact h

theorem pendingHead_mem (hi : i ∈ pendingHead l) : i ∈ l.opened := by
  cases l with
  | pending rest => exact List.mem_of_head? hi
  | _ => cases hi

/-- What does not concern a flow leaves its queue as it is. -/
theorem Shows.frame (h : Shows s f l) (hrunning : s'.running f = s.running f)
    (hstarted : s'.started f = s.started f) (hscanned : s'.scanned f = s.scanned f)
    (hresults : s'.resultsOf f = s.resultsOf f)
    (hpending : s'.t.device.pendingFlowList.count f = s.t.device.pendingFlowList.count f)
    (hhead : (s'.t.device.flows f).pendingPdHead = (s.t.device.flows f).pendingPdHead)
    (hfds : s'.fdsOf f = s.fdsOf f) (hwalks : s'.walksOf f = s.walksOf f)
    (hthread : s'.t.device.threadId = s.t.device.threadId)
    (hindex : ∀ i ∈ s.running f, s'.t.device.pdIndex i = s.t.device.pdIndex i)
    (hterm : ∀ i ∈ s.running f, (s'.t.device.pds (s.t.device.pdIndex i)).flowTerm =
      (s.t.device.pds (s.t.device.pdIndex i)).flowTerm) : Shows s' f l := by
  have hext : (∀ i ∈ s'.running f,
      (s'.t.device.pds (s'.t.device.pdIndex i)).flowTerm = false) → l.Extensible := by
    refine fun hfalse ↦ h.extensible fun i hi ↦ ?_
    rw [← hterm i hi, ← hindex i hi]
    exact hfalse i (hrunning ▸ hi)
  rw [h.running] at hindex
  refine ⟨h.ok, hrunning.trans h.running, ?_, hresults.trans h.results, hpending.trans h.pending,
    ?_, ?_, ?_, hext⟩
  · rw [hstarted, hscanned, h.started]
  · rw [hhead, h.head]
    cases hhead' : pendingHead l with
    | none => rfl
    | some i => rw [Option.map_some, Option.map_some, hindex i (pendingHead_mem hhead')]
  · rw [hfds]
    exact h.fds.congr h.ok hthread hindex
  · rw [hwalks]
    exact h.walks.congr h.ok hthread hindex

end ChainRun

end NetL7.Packet
