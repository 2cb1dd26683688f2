import Mathlib.Logic.Relation
import LocalFiles.DeleteTree

/-!
# DeleteReach — recursive deletion touches only what it found

The root is known, and every other path is known because a directory that was known listed it.
Each call of a deletion is about such a path, whatever the backend answers.
-/

namespace LocalFiles.Delete

open Interaction

section Reach

variable [QubitBudget] {P M R α : Type} {B : DeleteBackend P M} {root path : P}

/-! ## 1. Paths that were found -/

/-- The path that a call is about. -/
def DeleteCall.about : DeleteCall P M R → Option P
  | .metadata path | .openDirectory path | .nextChild path _ => some path
  | .removeNonDirectory path _ | .removeEmptyDirectory path | .beforeRemove path => some path
  | .elapsed | .discover _ => none

/-- The call listed `child` in the directory `parent`. -/
def Lists (parent child : P) : (c : DeleteCall P M R) → c.Result → Prop
  | .nextChild path _, answer => path = parent ∧ answer.1 = .ok (some child)
  | _, _ => False

def Listed (past : DeleteHistory P M R) (parent child : P) : Prop :=
  ∃ ev ∈ past, Lists parent child ev.call.2 ev.answer

/-- The root, or an entry listed in a directory that was found itself. -/
def Found (root : P) (past : DeleteHistory P M R) (path : P) : Prop :=
  Relation.ReflTransGen (Listed past) root path

theorem Found.grow {past : DeleteHistory P M R} (h : Found root past path)
    (now : DeleteHistory P M R) : Found root (past ++ now) path := by
  refine Relation.ReflTransGen.mono (fun parent child hlisted => ?_) _ _ h
  obtain ⟨ev, hmem, hev⟩ := hlisted
  exact ⟨ev, List.mem_append_left _ hmem, hev⟩

/-- Every call is about a path that was found before it. -/
def reach (root : P) : Proc.Discipline (DeleteCall P M R) DeleteCall.Result (Locals P) where
  fair _ := True
  allows past _ c := ∀ path, c.about = some path → Found root past path

/-! ## 2. Every run -/

/-- What waits on the stack was found. -/
def Stacked (root : P) (past : DeleteHistory P M R) (s : Locals P) : Prop :=
  ∀ item ∈ s.work, Found root past item.1.path

/-- In the middle of the work on `path`. -/
structure Working (root path : P) (past : DeleteHistory P M R) (s : Locals P) : Prop where
  stacked : Stacked root past s
  found : Found root past path

abbrev Reaches (root : P) (pre : DeleteHistory P M R → Locals P → Prop) (t : DeleteM P M R α)
    (post : α → DeleteHistory P M R → Locals P → Prop) : Prop :=
  Proc.Upholds (reach root) pre t post fun _ _ _ => True

theorem Working.grow {past : DeleteHistory P M R} {s : Locals P} (h : Working root path past s)
    (now : DeleteHistory P M R) : Working root path (past ++ now) s where
  stacked item hitem := (h.stacked item hitem).grow now
  found := h.found.grow now

theorem reaches_call {c : DeleteCall P M R} (hc : ∀ other, c.about = some other → other = path) :
    Reaches root (Working root path) (call c) fun _ => Working root path := by
  refine .ask fun past s hs => ⟨fun other hother => ?_, fun answer _ => hs.grow _⟩
  rw [hc other hother]
  exact hs.found

/-- A call that is about the path at hand. -/
theorem reaches_about {c : DeleteCall P M R} {pre : DeleteHistory P M R → Locals P → Prop}
    (hc : c.about = some path) (hpre : ∀ past s, pre past s → Working root path past s) :
    Reaches root pre (call c) fun _ => Working root path := by
  refine (reaches_call fun other hother => ?_).before hpre
  rw [hc] at hother
  exact (Option.some.inj hother).symm

theorem reaches_get {f : Locals P → DeleteM P M R α}
    {post : α → DeleteHistory P M R → Locals P → Prop}
    (h : ∀ s, Reaches root (Working root path) (f s) post) :
    Reaches root (Working root path) (Proc.get >>= f) post :=
  .get fun s => (h s).before fun _ _ hs => hs.1

theorem reaches_modify {g : Locals P → Locals P} (h : ∀ s, ∀ item ∈ (g s).work, item ∈ s.work) :
    Reaches (M := M) (R := R) root (Working root path) (Proc.modify g)
      fun _ => Working root path :=
  .modify fun _ s hs => ⟨fun item hitem => hs.stacked item (h s item hitem), hs.found⟩

theorem reaches_setChanged :
    Reaches (M := M) (R := R) root (Working root path) setChanged fun _ => Working root path :=
  reaches_modify fun _ _ hitem => hitem

theorem reaches_orFail {state : LocalFileEffectState} {named : P} {result : Except DeleteSource α}
    {pre : DeleteHistory P M R → Locals P → Prop} :
    Reaches (M := M) (R := R) root pre (orFail B state named result)
      fun a past s => result = .ok a ∧ pre past s := by
  cases result with
  | ok a => exact .pure fun _ _ hs => ⟨rfl, hs⟩
  | error source => exact .get fun s => .exit fun _ _ _ => trivial

theorem reaches_checkDeadline :
    Reaches (M := M) (R := R) root (Working root path) checkDeadline fun _ => Working root path := by
  refine reaches_get fun s => ?_
  split
  · exact .pure fun _ _ hs => hs
  · refine .bind (reaches_call (by rintro other ⟨⟩)) fun elapsed => ?_
    split
    · exact .pure fun _ _ hs => hs
    · exact .pure fun _ _ hs => hs

theorem reaches_reservePath (named : P) :
    Reaches (M := M) (R := R) root (Working root path) (reservePath B named)
      fun _ => Working root path := by
  refine reaches_get fun s => ?_
  split
  · exact .pure fun _ _ hs => hs
  · exact .exit fun _ _ _ => trivial
  · exact .bind (reaches_modify fun _ _ hitem => hitem) fun _ => .pure fun _ _ hs => hs

theorem reaches_discover (depth : Nat) :
    Reaches (M := M) (R := R) root (Working root path) (discover depth)
      fun _ => Working root path := by
  refine .bind (reaches_call (by rintro other ⟨⟩)) fun _ => .bind reaches_checkDeadline fun checked => ?_
  split
  · exact .pure fun _ _ hs => hs
  · refine reaches_get fun s => ?_
    split
    · exact .pure fun _ _ hs => hs
    · exact .bind (reaches_modify fun _ _ hitem => hitem) fun _ => .pure fun _ _ hs => hs

theorem reaches_registerEntry (named : P) (depth : Nat) :
    Reaches (M := M) (R := R) root (Working root path) (registerEntry B named depth)
      fun _ => Working root path := by
  refine .bind (reaches_discover depth) fun result => ?_
  split
  · exact .pure fun _ _ hs => hs
  · exact reaches_reservePath named

/-- What is pushed has been found. -/
theorem reaches_push {item : DeleteWork P × Nat}
    {pre : DeleteHistory P M R → Locals P → Prop} (hpre : ∀ past s, pre past s →
      Working root path past s ∧ Found root past item.1.path) :
    Reaches root pre (push item) fun _ => Working root path := by
  refine .modify fun past s hs => ?_
  obtain ⟨hworking, hitem⟩ := hpre past s hs
  refine ⟨?_, hworking.found⟩
  intro other hother
  rw [List.mem_cons] at hother
  cases hother with
  | inl heq => exact heq ▸ hitem
  | inr hrest => exact hworking.stacked other hrest

/-- The next child is listed by the very call that delivers it. -/
theorem reaches_nextChild (reader : R) :
    Reaches (M := M) root (Working root path) (nextChild path reader)
      fun answer past s => Working root path past s ∧
        ∀ child, answer.1 = .ok (some child) → Found root past child := by
  refine .ask fun past s hs => ⟨fun other hother => ?_, fun answer _ => ⟨hs.grow _, fun child hchild => ?_⟩⟩
  · rw [← Option.some.inj hother]
    exact hs.found
  · exact (hs.found.grow _).tail ⟨_, List.mem_append_right _ List.mem_cons_self, rfl, hchild⟩

theorem reaches_readChildren (bound : Nat) (reader : R) (depth : Nat) :
    Reaches (M := M) root (Working root path) (readChildren B bound path reader depth)
      fun _ => Working root path := by
  induction bound generalizing reader with
  | zero => exact .exit fun _ _ _ => trivial
  | succ bound ih =>
    refine .bind reaches_checkDeadline fun _ => .bind reaches_orFail fun _ =>
      .bind ((reaches_nextChild reader).before fun _ _ hs => hs.2) fun answer =>
      .bind reaches_orFail fun child => ?_
    split
    · exact .pure fun _ _ hs => hs.2.1
    · rename_i child
      have hregister : Reaches (M := M) (R := R) root
          (fun past s => Working root path past s ∧ Found root past child)
          (registerEntry B child (depth + 1))
          fun _ past s => Working root path past s ∧ Found root past child :=
        (reaches_registerEntry child (depth + 1)).remember fun past tr hfound => hfound.grow tr
      refine .bind (hregister.before fun past s hs => ⟨hs.2.1, hs.2.2 child hs.1⟩) fun _ =>
        .bind reaches_orFail fun _ => .bind (reaches_push fun _ _ hs => hs.2) fun _ => ih _

theorem reaches_inspectDirectory (bound : Nat) (depth : Nat) :
    Reaches (M := M) (R := R) root (Working root path) (inspectDirectory B bound path depth)
      fun _ => Working root path := by
  refine .bind reaches_checkDeadline fun _ => .bind reaches_orFail fun _ =>
    .bind (reaches_about rfl fun _ _ hs => hs.2) fun _ =>
    .bind reaches_orFail fun reader =>
    .bind ((reaches_reservePath path).before fun _ _ hs => hs.2) fun _ =>
    .bind reaches_orFail fun _ =>
    .bind (reaches_push fun _ _ hs => ⟨hs.2, hs.2.found⟩) fun _ => reaches_get fun s =>
    .bind (reaches_readChildren bound reader depth) fun _ => reaches_modify fun s item hitem => ?_
  have hitem : item ∈ (s.work.take _).reverse ++ s.work.drop _ := hitem
  rw [List.mem_append, List.mem_reverse, ← List.mem_append, List.take_append_drop] at hitem
  exact hitem

theorem reaches_inspectNonDirectory (metadata : M) :
    Reaches (R := R) root (Working root path) (inspectNonDirectory B path metadata)
      fun _ => Working root path :=
  .bind reaches_checkDeadline fun _ => .bind reaches_orFail fun _ =>
    .bind (reaches_about rfl fun _ _ hs => hs.2) fun _ =>
    .bind reaches_orFail fun _ =>
    .bind (reaches_about rfl fun _ _ hs => hs.2) fun _ =>
    .bind reaches_orFail fun _ => reaches_setChanged.before fun _ _ hs => hs.2

theorem reaches_removeDirectory :
    Reaches (M := M) (R := R) root (Working root path) (removeDirectory B path)
      fun _ => Working root path :=
  .bind (reaches_about rfl fun _ _ hs => hs) fun _ => .bind reaches_orFail fun _ =>
    .bind (reaches_about rfl fun _ _ hs => hs.2) fun _ =>
    .bind reaches_orFail fun _ => reaches_setChanged.before fun _ _ hs => hs.2

theorem reaches_inspect (bound : Nat) (depth : Nat) :
    Reaches (M := M) (R := R) root (Working root path) (inspect B bound path depth)
      fun _ => Working root path := by
  refine .bind (reaches_about rfl fun _ _ hs => hs) fun _ =>
    .bind reaches_orFail fun metadata => ?_
  dsimp only
  split
  · exact reaches_orFail.weaken (fun _ _ hs => hs.2) (fun _ _ _ hs => hs.2) fun _ _ _ hs => hs
  · split
    · exact (reaches_inspectDirectory bound depth).before fun _ _ hs => hs.2
    · exact (reaches_inspectNonDirectory metadata).before fun _ _ hs => hs.2

theorem reaches_process (bound : Nat) (item : DeleteWork P) (depth : Nat) :
    Reaches (M := M) (R := R) root (Working root item.path) (process B bound item depth)
      fun _ => Stacked root := by
  refine .through (fun _ => Working root item.path) (reaches_get fun s => ?_) fun _ =>
    .bind reaches_checkDeadline fun _ => .bind reaches_orFail fun _ => ?_
  · split
    · exact .exit fun _ _ _ => trivial
    · exact reaches_modify fun _ _ hitem => hitem
  · cases item with
    | inspect path =>
      exact (reaches_inspect bound depth).weaken (fun _ _ hs => hs.2)
        (fun _ _ _ hs => hs.stacked) fun _ _ _ hs => hs
    | removeDirectory path =>
      exact reaches_removeDirectory.weaken (fun _ _ hs => hs.2)
        (fun _ _ _ hs => hs.stacked) fun _ _ _ hs => hs

theorem reaches_pop :
    Reaches (M := M) (R := R) root (Stacked root) pop fun item past s => match item with
      | none => Stacked root past s
      | some (item, _) => Working root item.path past s := by
  refine .get fun s => ?_
  split
  · exact .pure fun _ _ hs => hs.1
  · rename_i item rest hwork
    refine .through (fun _ => Working root item.1.path) (.modify fun past s' hs => ?_) fun _ =>
      .pure fun _ _ hs => hs
    obtain ⟨hstacked, rfl⟩ := hs
    refine ⟨fun other hother => hstacked other ?_, hstacked item ?_⟩
    · rw [hwork]
      exact List.mem_cons_of_mem _ hother
    · rw [hwork]
      exact List.mem_cons_self

theorem reaches_workLoop (bound items : Nat) :
    Reaches (M := M) (R := R) root (Stacked root) (workLoop B bound items)
      fun _ => Stacked root := by
  induction items with
  | zero => exact .exit fun _ _ _ => trivial
  | succ items ih =>
    refine .bind reaches_pop fun item => ?_
    split
    · exact .pure fun _ _ hs => hs
    · exact .bind (reaches_process bound _ _) fun _ => ih

theorem reaches_removeDirectoryTree (bound : Nat) :
    Reaches (M := M) (R := R) root (Working root root) (removeDirectoryTree B bound root)
      fun _ => Stacked root :=
  .bind (reaches_registerEntry root 0) fun _ => .bind reaches_orFail fun _ =>
    .bind (reaches_push fun _ _ hs => ⟨hs.2, hs.2.found⟩) fun _ =>
    (reaches_workLoop bound bound).before fun _ _ hs => hs.stacked

/-- A deletion asks about, opens and removes nothing that it was not led to from its root. -/
theorem removeDirectoryTree_reach {bound : Nat} {options : LocalDeleteOptions} {s : Locals P}
    {tr : DeleteHistory P M R} {r : Except (Option (Halt LocalFileError)) Unit}
    (h : (removeDirectoryTree B bound root).Runs (start options) tr r s) :
    (reach root).Kept [] tr := by
  have hstart : Working (M := M) (R := R) root root [] (start options) := by
    refine ⟨?_, .refl⟩
    rintro item ⟨⟩
  exact (reaches_removeDirectoryTree bound [] _ tr r s hstart h fun _ _ => trivial).1

end Reach

end LocalFiles.Delete
