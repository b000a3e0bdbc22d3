import Mathlib.Data.List.Forall2
import SchemaTypes.Command.Workspace

namespace SchemaTypes

/-- Nothing has been written or printed on the way from one workspace to the next.
    What may have changed is how much is left of standard input, and the log. -/
structure Workspace.Untouched (space space' : Workspace) : Prop where
  files : space'.files = space.files
  output : space'.output = space.output
  errors : space'.errors = space.errors

theorem Workspace.Untouched.refl (space : Workspace) : space.Untouched space := ⟨rfl, rfl, rfl⟩

theorem Workspace.Untouched.trans {space space' space'' : Workspace} (h : space.Untouched space')
    (h' : space'.Untouched space'') : space.Untouched space'' :=
  ⟨h'.files.trans h.files, h'.output.trans h.output, h'.errors.trans h.errors⟩

namespace Work

section Run

variable {α β : Type} {work : Work α} {next : α → Work β} {space space' : Workspace}

/-- Two pieces of work one after the other, in the terms of the monad. The two
    lemmas below are what other proofs use. -/
theorem run_bind (work : Work α) (next : α → Work β) (space : Workspace) :
    (work >>= next).run space =
      ExceptT.bindCont next (work.run space).1 (work.run space).2 := rfl

/-- Work goes on in the workspace that is left by what came before. -/
theorem run_bind_ok {value : α} (h : work.run space = (.ok value, space')) :
    (work >>= next).run space = (next value).run space' := by
  rw [run_bind, h]
  rfl

/-- A failure is the end of all work, and nothing that came before it is undone. -/
theorem run_bind_error {failure : Failure} (h : work.run space = (.error failure, space')) :
    (work >>= next).run space = (.error failure, space') := by
  rw [run_bind, h]
  rfl

/-- A note is a record at the end of the log. -/
theorem run_note (level : Level) (component : Component) (message : String) (space : Workspace) :
    (note level component message).run space =
      (.ok (), { space with log := space.log ++ #[⟨level, component, message⟩] }) := rfl

end Run

/-- Work that writes and prints nothing, whether it fails or not and wherever it starts. -/
def ReadsOnly {α : Type} (work : Work α) : Prop :=
  ∀ space : Workspace, space.Untouched (work.run space).2

namespace ReadsOnly

variable {α β : Type}

theorem pure (value : α) : ReadsOnly (pure value) := fun space => .refl space

theorem throw (failure : Failure) : ReadsOnly (throw failure : Work α) := fun space => .refl space

theorem get : ReadsOnly get := fun space => .refl space

theorem note (level : Level) (component : Component) (message : String) :
    ReadsOnly (note level component message) := fun _ => ⟨rfl, rfl, rfl⟩

theorem takeInput : ReadsOnly takeInput := fun _ => ⟨rfl, rfl, rfl⟩

/-- Turning an error into a failure touches nothing, since the failure is only an answer. -/
theorem orFail {ε : Type} (failure : ε → Failure) (result : Except ε α) :
    ReadsOnly (orFail failure result) := by
  cases result with
  | ok value => exact pure value
  | error e => exact throw (failure e)

/-- Two pieces of work one after the other. If the first fails, the second one does nothing,
    and the first has left the workspace untouched also in that case. -/
theorem bind {work : Work α} {next : α → Work β} (h : ReadsOnly work)
    (hnext : ∀ value, ReadsOnly (next value)) : ReadsOnly (work >>= next) := by
  intro space
  obtain ⟨result, middle, hwork⟩ : ∃ result middle, work.run space = (result, middle) :=
    ⟨_, _, rfl⟩
  have hmiddle : space.Untouched middle := by
    have := h space
    rwa [hwork] at this
  cases result with
  | ok value =>
    rw [run_bind_ok hwork]
    exact hmiddle.trans (hnext value middle)
  | error failure =>
    rw [run_bind_error hwork]
    exact hmiddle

/-- The same work for every item of a list, up to the first item that fails. -/
theorem mapM {f : α → Work β} (h : ∀ a, ReadsOnly (f a)) (items : List α) :
    ReadsOnly (items.mapM f) := by
  induction items with
  | nil => exact pure []
  | cons item items ih =>
    rw [List.mapM_cons]
    exact (h item).bind fun first => ih.bind fun rest => pure (first :: rest)

/-- A file is looked up in the workspace and only its text is taken. -/
theorem readFile (path : String) : ReadsOnly (readFile path) := get.bind fun _ => orFail _ _

end ReadsOnly

/-- Two values are the same, and have a property. -/
def SameWith {α : Type} (property : α → Prop) (a b : α) : Prop := a = b ∧ property a

/-- Both have the same failure, or values that are related. -/
inductive SameEnd {α β : Type} (related : α → β → Prop) :
    Except Failure α → Except Failure β → Prop where
  | ok {a : α} {b : β} (h : related a b) : SameEnd related (.ok a) (.ok b)
  | error (failure : Failure) : SameEnd related (.error failure) (.error failure)

/-- Ends that are the same up to equal values are equal. -/
theorem SameEnd.eq {α : Type} {a b : Except Failure α} (h : SameEnd Eq a b) : a = b := by
  cases h with
  | ok h => rw [h]
  | error failure => rfl

/-- Started from workspaces that are alike, two pieces of work end with workspaces
    that are alike, and with the same failure or with values that are related. -/
def Agree {α β : Type} (alike : Workspace → Workspace → Prop) (related : α → β → Prop) (x : Work α)
    (y : Work β) : Prop :=
  ∀ ⦃i j⦄, alike i j → alike (x.run i).2 (y.run j).2 ∧ SameEnd related (x.run i).1 (y.run j).1

namespace Agree

variable {alike : Workspace → Workspace → Prop} {α β γ δ : Type} {related : α → β → Prop}
  {following : γ → δ → Prop}

theorem pure {a : α} {b : β} (h : related a b) : Agree alike related (pure a) (pure b) :=
  fun _ _ halike => ⟨halike, .ok h⟩

theorem throw (failure : Failure) : Agree alike related (throw failure) (throw failure) :=
  fun _ _ halike => ⟨halike, .error failure⟩

/-- Both see workspaces that are alike, and may go on with what they see. -/
theorem get : Agree alike alike get get := fun _ _ halike => ⟨halike, .ok halike⟩

/-- One error gives one failure on both sides. A value that is given instead is
    related to itself only as far as that is known of it. -/
theorem orFail {ε : Type} {related : α → α → Prop} (failure : ε → Failure) {result : Except ε α}
    (h : ∀ a, result = .ok a → related a a) :
    Agree alike related (orFail failure result) (orFail failure result) := by
  cases result with
  | ok a => exact pure (h a rfl)
  | error e => exact throw (failure e)

/-- What is known of a value that may be given is kept for the work that goes on with it. -/
theorem orFail_with {ε : Type} {property : α → Prop} (failure : ε → Failure) {result : Except ε α}
    (h : ∀ a, result = .ok a → property a) :
    Agree alike (SameWith property) (Work.orFail failure result) (Work.orFail failure result) :=
  orFail failure fun a ha => ⟨rfl, h a ha⟩

/-- Two runs are compared step by step. After the same failure both have ended; after
    related values the comparison goes on in the workspaces that are left. -/
theorem bind {x : Work α} {y : Work β} {f : α → Work γ} {g : β → Work δ}
    (h : Agree alike related x y) (hnext : ∀ a b, related a b → Agree alike following (f a) (g b)) :
    Agree alike following (x >>= f) (y >>= g) := by
  intro i j halike
  obtain ⟨hafter, hend⟩ := h halike
  obtain ⟨xend, i', hx⟩ : ∃ xend i', x.run i = (xend, i') := ⟨_, _, rfl⟩
  obtain ⟨yend, j', hy⟩ : ∃ yend j', y.run j = (yend, j') := ⟨_, _, rfl⟩
  rw [hx, hy] at hafter hend
  cases hend with
  | ok hrelated =>
    rw [run_bind_ok hx, run_bind_ok hy]
    exact hnext _ _ hrelated hafter
  | error failure =>
    rw [run_bind_error hx, run_bind_error hy]
    exact ⟨hafter, .error failure⟩

/-- Work for the items of two lists agrees if it does for items at the same
    places. The lists need not be equal, only related item by item. -/
theorem mapM {f : α → Work γ} {g : β → Work δ} {xs : List α} {ys : List β}
    (hlists : List.Forall₂ related xs ys)
    (h : ∀ a b, related a b → Agree alike following (f a) (g b)) :
    Agree alike (List.Forall₂ following) (xs.mapM f) (ys.mapM g) := by
  induction hlists with
  | nil => exact pure .nil
  | cons hrelated _ ih =>
    rw [List.mapM_cons, List.mapM_cons]
    refine (h _ _ hrelated).bind fun c d hhead => ih.bind fun cs ds htail => ?_
    exact pure (.cons hhead htail)

theorem mapM_same {f : α → Work γ} {g : α → Work δ} (xs : List α)
    (h : ∀ a, Agree alike following (f a) (g a)) :
    Agree alike (List.Forall₂ following) (xs.mapM f) (xs.mapM g) := by
  have hlists : List.Forall₂ Eq xs xs := List.forall₂_refl xs
  refine mapM hlists ?_
  rintro a _ rfl
  exact h a

end Agree

end Work

end SchemaTypes
