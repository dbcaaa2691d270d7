import VirtualFs.Host.Program

namespace VirtualFs.Host

/-- A call of the host and its answer. -/
structure Exchange where
  {β : Type}
  request : Request β
  answer : β

/-- The calls that may be made, and the answers that may come. -/
structure Contract where
  asks : {β : Type} → Request β → Prop
  answers : {β : Type} → Request β → β → Prop

/-- The exchange is one that the contract allows. -/
def Contract.Allows (contract : Contract) (exchange : Exchange) : Prop :=
  contract.asks exchange.request ∧ contract.answers exchange.request exchange.answer

/-- The result satisfies `Q`, if there is one. -/
def OnSuccess {ε α : Type} (Q : α → Prop) : Except ε α → Prop
  | .ok result => Q result
  | .error _ => True

theorem onSuccess_of_ok {ε α : Type} {Q : α → Prop} {outcome : Except ε α}
    (hok : ∀ result, outcome = .ok result → Q result) : OnSuccess Q outcome := by
  cases outcome with
  | error e => trivial
  | ok result => exact hok result rfl

namespace Program

variable {α β : Type} {contract : Contract} {Q R : α → Prop}

/-- All calls are such as the contract allows, whatever it lets the host answer to those before, and
the result satisfies `Q`. -/
def Keeps (contract : Contract) (Q : α → Prop) : Program α → Prop
  | .done result => Q result
  | .call request next =>
    contract.asks request ∧
      ∀ answer, contract.answers request answer → (next answer).Keeps contract Q

/-- The calls that a program makes on a disk, and what they answer. -/
def log (libraries : Libraries) : Program α → Disk → List Exchange
  | .done _, _ => []
  | .call request next, disk =>
    let (answer, disk) := disk.answer libraries request
    ⟨request, answer⟩ :: (next answer).log libraries disk

theorem Keeps.mono {program : Program α} (hkeeps : program.Keeps contract Q)
    (himp : ∀ result, Q result → R result) : program.Keeps contract R := by
  induction program with
  | done result => exact himp result hkeeps
  | call request next ih =>
    exact ⟨hkeeps.1, fun answer hanswer => ih answer (hkeeps.2 answer hanswer)⟩

theorem Keeps.bind {program : Program α} {next : α → Program β} {S : β → Prop}
    (hkeeps : program.Keeps contract Q)
    (hnext : ∀ result, Q result → (next result).Keeps contract S) :
    (program.bind next).Keeps contract S := by
  induction program with
  | done result => exact hnext result hkeeps
  | call request rest ih =>
    exact ⟨hkeeps.1, fun answer hanswer => ih answer (hkeeps.2 answer hanswer)⟩

end Program

/-- The attempt keeps the contract, and its result satisfies `Q` if it succeeds. -/
def Attempt.Keeps {α : Type} (contract : Contract) (Q : α → Prop) (attempt : Attempt α) : Prop :=
  attempt.run.Keeps contract (OnSuccess Q)

namespace Attempt

variable {α β : Type} {contract : Contract} {Q : α → Prop}

theorem keeps_lift {result : Except FsError α} (hresult : OnSuccess Q result) :
    (Attempt.lift result).Keeps contract Q :=
  hresult

theorem keeps_ask {request : Request (Except Failure α)} (hasks : contract.asks request)
    (hanswer : ∀ result, contract.answers request (.ok result) → Q result) :
    (Attempt.ask request).Keeps contract Q := by
  refine ⟨hasks, fun answer hhonest => ?_⟩
  cases answer with
  | error failure => trivial
  | ok result => exact hanswer result hhonest

theorem keeps_pure {result : α} (hresult : Q result) :
    (pure result : Attempt α).Keeps contract Q :=
  hresult

theorem Keeps.bind {attempt : Attempt α} {next : α → Attempt β} {S : β → Prop}
    (hkeeps : attempt.Keeps contract Q)
    (hnext : ∀ result, Q result → (next result).Keeps contract S) :
    (attempt >>= next).Keeps contract S := by
  refine Program.Keeps.bind hkeeps fun result hresult => ?_
  cases result with
  | error e => trivial
  | ok result => exact hnext result hresult

theorem Keeps.tag {attempt : Attempt α} (hkeeps : attempt.Keeps contract Q) (operation : Operation)
    (path : String) : (attempt.tag operation path).Keeps contract Q := by
  refine Program.Keeps.bind hkeeps fun result hresult => ?_
  cases result with
  | error e => trivial
  | ok result => exact hresult

theorem keeps_of_program {program : Program α} (hkeeps : program.Keeps contract Q) :
    Attempt.Keeps contract Q (ExceptT.lift program) :=
  Program.Keeps.bind hkeeps fun _ hresult => hresult

end Attempt

/-- On disks of the class `I` the host and the libraries answer as the contract says, and no call
that the contract allows leads out of the class. -/
def Contract.Honoured (contract : Contract) (libraries : Libraries) (I : Disk → Prop) : Prop :=
  ∀ disk, I disk → ∀ {β : Type} (request : Request β), contract.asks request →
    contract.answers request (disk.answer libraries request).1 ∧ I (disk.answer libraries request).2

/-- A program that keeps a contract stays within it on every disk that honours the contract. -/
theorem Program.Keeps.run {α : Type} {contract : Contract} {Q : α → Prop} {libraries : Libraries}
    {I : Disk → Prop} (hhonoured : contract.Honoured libraries I) {program : Program α}
    (hkeeps : program.Keeps contract Q) {disk : Disk} (hdisk : I disk) :
    Q (program.run libraries disk).1 ∧ I (program.run libraries disk).2 ∧
      ∀ exchange ∈ program.log libraries disk, contract.Allows exchange := by
  induction program generalizing disk with
  | done result => exact ⟨hkeeps, hdisk, List.forall_mem_nil _⟩
  | call request next ih =>
    obtain ⟨hasks, hnext⟩ := hkeeps
    obtain ⟨hanswer, hafter⟩ := hhonoured disk hdisk request hasks
    obtain ⟨hresult, hlast, hlog⟩ := ih _ (hnext _ hanswer) hafter
    exact ⟨hresult, hlast, List.forall_mem_cons.mpr ⟨⟨hasks, hanswer⟩, hlog⟩⟩

end VirtualFs.Host
