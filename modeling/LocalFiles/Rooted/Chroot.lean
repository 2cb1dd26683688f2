import LocalFiles.Rooted.Cycle

/-!
# Chroot — what a path means below a root

The walk a process makes in a root of its own: part by part, with the target of a link walked in
its place.  It is a nested recursion, while the resolver keeps one queue; both lead to the same
path, or neither leads anywhere.
-/

namespace LocalFiles.Rooted

open NativePath
open Walk (LocalResolutionScope LocalResolutionOrigin)

/-! ## 1. The walk -/

/-- The walk from `cwd` along the parts of a path, inside the targets of the links `active`.  A name
    is kept when nothing has it, and leads nowhere below what is no directory. -/
inductive Walks (tree : StaticTree) :
    List (List OsString) → List OsString → List OsString → List OsString → Prop
  | done {active : List (List OsString)} {cwd : List OsString} : Walks tree active cwd [] cwd
  | dot {active : List (List OsString)} {cwd rest r : List OsString}
      (hdirectory : tree.IsDirectory cwd) (hrest : Walks tree active cwd rest r) :
      Walks tree active cwd (dot :: rest) r
  | dotDot {active : List (List OsString)} {cwd rest r : List OsString}
      (hdirectory : tree.IsDirectory cwd) (hroot : cwd ≠ [])
      (hrest : Walks tree active cwd.dropLast rest r) : Walks tree active cwd (dotDot :: rest) r
  | name {active : List (List OsString)} {cwd rest r : List OsString} {name : OsString}
      {found : Option Node} (hdot : name ≠ NativePath.dot) (hdotDot : name ≠ NativePath.dotDot)
      (hlookup : tree.lookup cwd name = .ok found)
      (hfound : ∀ target, found ≠ some (.symlink target))
      (hrest : Walks tree active (cwd ++ [name]) rest r) : Walks tree active cwd (name :: rest) r
  | link {active : List (List OsString)} {cwd rest mid r : List OsString} {name : OsString}
      {target : UnixPath} (hdot : name ≠ NativePath.dot) (hdotDot : name ≠ NativePath.dotDot)
      (hlookup : tree.lookup cwd name = .ok (some (.symlink target)))
      (hfresh : cwd ++ [name] ∉ active)
      (htarget : Walks tree ((cwd ++ [name]) :: active)
        (if isAbsolute target.bytes then [] else cwd) (parts target.bytes) mid)
      (htrailing : hasTrailingSeparator target.bytes → tree.IsDirectory mid)
      (hrest : Walks tree active mid rest r) : Walks tree active cwd (name :: rest) r

/-- The final name of a path, when it is not to be followed even if it is a link. -/
def keptFinal (followFinal : Bool) (path : OsString) : Option OsString :=
  if followFinal || hasTrailingSeparator path then none
  else (parts path).getLast?.filter fun part => part ≠ dot ∧ part ≠ dotDot

/-- Where a path leads from the root. -/
inductive ChrootResolves (tree : StaticTree) (followFinal : Bool) (path : OsString) :
    List OsString → Prop
  | followed {r : List OsString} (hfinal : keptFinal followFinal path = none)
      (hwalks : Walks tree [] [] (parts path) r)
      (htrailing : hasTrailingSeparator path → tree.IsDirectory r) :
      ChrootResolves tree followFinal path r
  | kept {dir : List OsString} {name : OsString} (hfinal : keptFinal followFinal path = some name)
      (hwalks : Walks tree [] [] (parts path).dropLast dir) :
      ChrootResolves tree followFinal path (dir ++ [name])

/-! ## 2. The parts of a path as steps -/

def stepOfPart (origin : LocalResolutionOrigin) (part : OsString) : ResolutionStep :=
  stepOfToken (tokenOfPart origin part)

/-- What is pending behind the parts of a path. -/
def trailingSteps (path : OsString) : List ResolutionStep :=
  if hasTrailingSeparator path then [.requireDirectory] else []

theorem stepsOf_eq (path : OsString) (origin : LocalResolutionOrigin) :
    stepsOf path origin = (if isAbsolute path then [.resetRoot] else []) ++
      ((parts path).map (stepOfPart origin) ++ trailingSteps path) := by
  unfold stepsOf tokensAfterCheck trailingSteps
  rw [List.map_append, List.map_map]
  by_cases htrailing : hasTrailingSeparator path
  · rw [if_pos htrailing, if_pos htrailing]
    rfl
  · rw [if_neg htrailing, if_neg htrailing]
    rfl

@[simp] theorem stepOfPart_dot (origin : LocalResolutionOrigin) :
    stepOfPart origin dot = .current := rfl

@[simp] theorem stepOfPart_dotDot (origin : LocalResolutionOrigin) :
    stepOfPart origin dotDot = .parent := rfl

theorem stepOfPart_name {part : OsString} (hdot : part ≠ dot) (hdotDot : part ≠ dotDot)
    (origin : LocalResolutionOrigin) : stepOfPart origin part = .normal part origin := by
  unfold stepOfPart tokenOfPart
  rw [if_neg hdot, if_neg hdotDot]
  rfl

theorem pendingActionsOf_parts (origin : LocalResolutionOrigin) (ps : List OsString) :
    pendingActionsOf (ps.map (stepOfPart origin)) = ps.length := by
  induction ps with
  | nil => rfl
  | cons part ps ih =>
    have hend : isEndSymlinkStep (stepOfPart origin part) = false := isEndSymlinkStep_stepOfToken _
    rw [List.map_cons, pendingActionsOf_cons, hend, ih, List.length_cons]
    simp only [Bool.false_eq_true, if_false]
    omega

@[simp] theorem endsOf_trailingSteps (path : OsString) : endsOf (trailingSteps path) = [] := by
  unfold trailingSteps
  split <;> rfl

/-! ## 3. From the walk to the queue -/

section Queue

variable {tree : StaticTree} {request : ResolutionRequest}

/-- Links are followed, and nothing leads out of the root. -/
structure Confined (request : ResolutionRequest) : Prop where
  follows : request.symlinkPolicy ≠ .reject
  rejects : request.parentBehavior = .rejectEscape

/-- No name among the parts is final and kept. -/
def Followed (request : ResolutionRequest) (ps : List OsString) (back : List ResolutionStep) : Prop :=
  ¬(pendingActionsOf back = 0 ∧ request.followFinal = false) ∨
    ∀ last, ps.getLast? = some last → last = dot ∨ last = dotDot

theorem Followed.tail {part : OsString} {ps : List OsString} {back : List ResolutionStep}
    (h : Followed request (part :: ps) back) : Followed request ps back := by
  obtain h | h := h
  · exact .inl h
  · right
    intro last hlast
    apply h
    cases ps with
    | nil => cases hlast
    | cons first ps =>
      rw [List.getLast?_cons_cons]
      exact hlast

theorem Followed.name {name : OsString} {ps : List OsString} {back : List ResolutionStep}
    (h : Followed request (name :: ps) back) (hdot : name ≠ dot) (hdotDot : name ≠ dotDot)
    (origin : LocalResolutionOrigin) :
    ¬(pendingActionsOf (ps.map (stepOfPart origin) ++ back) = 0 ∧ request.followFinal = false) := by
  rw [pendingActionsOf_append, pendingActionsOf_parts]
  intro hkeep
  obtain h | h := h
  · exact h ⟨by omega, hkeep.2⟩
  · -- The name is the last part, but the last part is no name.
    have hps : ps = [] := List.eq_nil_of_length_eq_zero (by omega)
    subst hps
    obtain hlast | hlast := h name rfl
    · exact hdot hlast
    · exact hdotDot hlast

theorem followed_target {ps : List OsString} {front back : List ResolutionStep}
    {identity : SymlinkIdentity} (h : ¬(pendingActionsOf back = 0 ∧ request.followFinal = false)) :
    Followed request ps (front ++ .endSymlink identity :: back) := by
  left
  rw [pendingActionsOf_append, pendingActionsOf_cons]
  intro hkeep
  exact h ⟨by omega, hkeep.2⟩

theorem reaches_trailing (request : ResolutionRequest) {path : OsString} {r : List OsString}
    (h : hasTrailingSeparator path → tree.IsDirectory r) (back : List ResolutionStep) :
    Loop.Reaches (Position.turn tree request) ⟨r, trailingSteps path ++ back⟩ ⟨r, back⟩ := by
  unfold trailingSteps
  by_cases htrailing : hasTrailingSeparator path
  · rw [if_pos htrailing]
    exact .single (if_pos (h htrailing))
  · rw [if_neg htrailing]
    exact .refl

/-- An absolute path starts again at the root. -/
theorem reaches_stepsOf (tree : StaticTree) (request : ResolutionRequest) (path : OsString)
    (origin : LocalResolutionOrigin) (cwd : List OsString) (back : List ResolutionStep) :
    Loop.Reaches (Position.turn tree request) ⟨cwd, stepsOf path origin ++ back⟩
      ⟨if isAbsolute path then [] else cwd,
        (parts path).map (stepOfPart origin) ++ (trailingSteps path ++ back)⟩ := by
  rw [stepsOf_eq]
  by_cases habsolute : isAbsolute path
  · rw [if_pos habsolute, if_pos habsolute, List.append_assoc, List.append_assoc]
    exact .single rfl
  · rw [if_neg habsolute, if_neg habsolute, List.nil_append, List.append_assoc]
    exact .refl

theorem mem_ends_iff {active : List (List OsString)} {path : List OsString}
    {back : List ResolutionStep} (hends : endsOf back = active.map tree.linkIdentity) :
    tree.linkIdentity path ∈ endsOf back ↔ path ∈ active := by
  rw [hends, List.mem_map]
  constructor
  · intro ⟨other, hmem, heq⟩
    exact StaticTree.linkIdentity_inj heq ▸ hmem
  · intro hmem
    exact ⟨path, hmem, rfl⟩

theorem endsOf_parts (origin : LocalResolutionOrigin) (ps : List OsString)
    (back : List ResolutionStep) :
    endsOf (ps.map (stepOfPart origin) ++ back) = endsOf back := by
  rw [endsOf_append, endsOf_eq_nil, List.nil_append]
  intro step hstep
  obtain ⟨part, -, heq⟩ := List.mem_map.mp hstep
  rw [← heq]
  exact isEndSymlinkStep_stepOfToken _

/-- What the chroot walks, the resolver walks in front of anything that is pending. -/
theorem Walks.reaches (hconfined : Confined request) {active : List (List OsString)}
    {cwd ps r : List OsString} (h : Walks tree active cwd ps r) {back : List ResolutionStep}
    (hends : endsOf back = active.map tree.linkIdentity) (hfollowed : Followed request ps back)
    (origin : LocalResolutionOrigin) :
    Loop.Reaches (Position.turn tree request) ⟨cwd, ps.map (stepOfPart origin) ++ back⟩
      ⟨r, back⟩ := by
  induction h generalizing back origin with
  | done => exact .refl
  | dot hdirectory _ ih =>
    exact .head (if_pos hdirectory) (ih hends hfollowed.tail origin)
  | dotDot hdirectory hroot _ ih =>
    refine .head ?_ (ih hends hfollowed.tail origin)
    show Position.step tree request _ _ .parent = _
    simp only [Position.step]
    rw [if_pos hdirectory, if_neg fun hand => hroot hand.1]
    rfl
  | @name active cwd rest r name found hdot hdotDot hlookup hfound _ ih =>
    refine .head ?_ (ih hends hfollowed.tail origin)
    show Position.step tree request cwd (rest.map (stepOfPart origin) ++ back)
      (stepOfPart origin name) = _
    rw [stepOfPart_name hdot hdotDot]
    simp only [Position.step]
    rw [if_neg (hfollowed.name hdot hdotDot origin), hlookup]
    cases found with
    | none => rfl
    | some node =>
      cases node with
      | directory | file | other => rfl
      | symlink target => exact absurd rfl (hfound target)
  | @link active cwd rest mid r name target hdot hdotDot hlookup hfresh _ htrailing _ iht ihr =>
    have hkeep := hfollowed.name hdot hdotDot origin
    have hrest : endsOf (rest.map (stepOfPart origin) ++ back) = active.map tree.linkIdentity := by
      rw [endsOf_parts, hends]
    -- The link is replaced by its target and a mark,
    have hexpand : Position.turn tree request
        ⟨cwd, (name :: rest).map (stepOfPart origin) ++ back⟩ =
        .again ⟨cwd, stepsOf target.bytes .symlinkTarget ++
          .endSymlink (tree.linkIdentity (cwd ++ [name])) ::
            (rest.map (stepOfPart origin) ++ back)⟩ := by
      show Position.step tree request cwd (rest.map (stepOfPart origin) ++ back)
        (stepOfPart origin name) = _
      rw [stepOfPart_name hdot hdotDot]
      simp only [Position.step]
      rw [if_neg hkeep, hlookup]
      show Position.expand tree request cwd name target _ = _
      unfold Position.expand
      rw [if_neg hconfined.follows, if_neg fun hmem => hfresh ((mem_ends_iff hrest).mp hmem)]
    -- the target is walked in front of the mark,
    have hmark : endsOf (trailingSteps target.bytes ++
        .endSymlink (tree.linkIdentity (cwd ++ [name])) :: (rest.map (stepOfPart origin) ++ back)) =
        ((cwd ++ [name]) :: active).map tree.linkIdentity := by
      rw [endsOf_append, endsOf_trailingSteps, endsOf_end, hrest]
      rfl
    have htarget := iht hmark (followed_target hkeep) .symlinkTarget
    -- and the walk goes on behind it.
    exact .head hexpand (((reaches_stepsOf _ _ _ _ _ _).trans htarget).trans
      ((reaches_trailing _ htrailing _).trans (.head rfl (ihr hends hfollowed.tail origin))))

/-! ## 4. From the queue to the walk -/

theorem Position.step_done {resolved : List OsString} {rest : List ResolutionStep}
    {step : ResolutionStep} {result : Except Stop (List OsString)}
    (h : Position.step tree request resolved rest step = .done result) :
    ∃ stop, result = .error stop := by
  cases step with
  | resetRoot | endSymlink => cases h
  | current | requireDirectory =>
    simp only [Position.step] at h
    split at h <;> cases h
    exact ⟨_, rfl⟩
  | parent =>
    simp only [Position.step] at h
    split at h
    · split at h <;> cases h
      exact ⟨_, rfl⟩
    · cases h
      exact ⟨_, rfl⟩
  | normal name origin =>
    simp only [Position.step] at h
    split at h
    next => cases h
    next =>
      split at h
      next =>
        cases h
        exact ⟨_, rfl⟩
      next =>
        unfold Position.expand at h
        split at h
        · cases h
          exact ⟨_, rfl⟩
        · split at h <;> cases h
          exact ⟨_, rfl⟩
      next => cases h

theorem Position.pending_of_done {p : Position} {names : List OsString}
    (h : p.turn tree request = .done (.ok names)) : p.pending = [] := by
  obtain ⟨resolved, pending⟩ := p
  cases pending with
  | nil => rfl
  | cons step rest =>
    obtain ⟨stop, hstop⟩ := Position.step_done (show Position.step tree request _ _ _ = _ from h)
    cases hstop

/-- A run that ends well takes its first step. -/
theorem run_step {n : Nat} {resolved : List OsString} {step : ResolutionStep}
    {rest : List ResolutionStep} {final : List OsString}
    (h : Loop.run (Position.turn tree request) n ⟨resolved, step :: rest⟩ = some (.ok final)) :
    ∃ m p', n = m + 1 ∧ Position.step tree request resolved rest step = .again p' ∧
      Loop.run (Position.turn tree request) m p' = some (.ok final) := by
  cases n with
  | zero => cases h
  | succ m =>
    unfold Loop.run at h
    have hturn : Position.turn tree request ⟨resolved, step :: rest⟩ =
        Position.step tree request resolved rest step := rfl
    cases hstep : Position.step tree request resolved rest step with
    | done result =>
      obtain ⟨stop, hstop⟩ := Position.step_done hstep
      rw [hturn, hstep, hstop] at h
      cases h
    | again p' =>
      rw [hturn, hstep] at h
      exact ⟨m, p', rfl, rfl, h⟩

theorem run_trailing {n : Nat} {path : OsString} {r final : List OsString}
    {back : List ResolutionStep}
    (h : Loop.run (Position.turn tree request) n ⟨r, trailingSteps path ++ back⟩ =
      some (.ok final)) :
    (hasTrailingSeparator path → tree.IsDirectory r) ∧
      ∃ m, m ≤ n ∧ Loop.run (Position.turn tree request) m ⟨r, back⟩ = some (.ok final) := by
  unfold trailingSteps at h
  by_cases htrailing : hasTrailingSeparator path
  · rw [if_pos htrailing] at h
    obtain ⟨m, p', hn, hstep, hrun⟩ := run_step h
    simp only [Position.step] at hstep
    by_cases hdirectory : tree.IsDirectory r
    · rw [if_pos hdirectory] at hstep
      cases hstep
      exact ⟨fun _ => hdirectory, m, by omega, hrun⟩
    · rw [if_neg hdirectory] at hstep
      cases hstep
  · rw [if_neg htrailing] at h
    exact ⟨fun htrue => absurd htrue htrailing, n, le_refl n, h⟩

theorem run_stepsOf {n : Nat} {path : OsString} {origin : LocalResolutionOrigin}
    {cwd final : List OsString} {back : List ResolutionStep}
    (h : Loop.run (Position.turn tree request) n ⟨cwd, stepsOf path origin ++ back⟩ =
      some (.ok final)) :
    ∃ m, m ≤ n ∧ Loop.run (Position.turn tree request) m
      ⟨if isAbsolute path then [] else cwd,
        (parts path).map (stepOfPart origin) ++ (trailingSteps path ++ back)⟩ =
      some (.ok final) := by
  rw [stepsOf_eq] at h
  by_cases habsolute : isAbsolute path
  · rw [if_pos habsolute, List.append_assoc, List.append_assoc] at h
    obtain ⟨m, p', hn, hstep, hrun⟩ := run_step h
    cases hstep
    rw [if_pos habsolute]
    exact ⟨m, by omega, hrun⟩
  · rw [if_neg habsolute, List.nil_append, List.append_assoc] at h
    rw [if_neg habsolute]
    exact ⟨n, le_refl n, h⟩

theorem expand_again {resolved : List OsString} {name : OsString} {target : UnixPath}
    {rest : List ResolutionStep} {p' : Position}
    (h : Position.expand tree request resolved name target rest = .again p') :
    tree.linkIdentity (resolved ++ [name]) ∉ endsOf rest ∧
      p' = ⟨resolved, stepsOf target.bytes .symlinkTarget ++
        .endSymlink (tree.linkIdentity (resolved ++ [name])) :: rest⟩ := by
  unfold Position.expand at h
  split at h
  next => cases h
  next =>
    split at h
    next => cases h
    next hfresh => exact ⟨hfresh, (Turn.again.inj h).symm⟩

/-- A run that ends well has made the walk of the chroot when it comes to what is pending behind. -/
theorem walks_of_run {n : Nat} {active : List (List OsString)} {cwd ps final : List OsString}
    {back : List ResolutionStep} {origin : LocalResolutionOrigin}
    (hconfined : Confined request) (hends : endsOf back = active.map tree.linkIdentity)
    (hfollowed : Followed request ps back)
    (h : Loop.run (Position.turn tree request) n ⟨cwd, ps.map (stepOfPart origin) ++ back⟩ =
      some (.ok final)) :
    ∃ r m, m ≤ n ∧ Walks tree active cwd ps r ∧
      Loop.run (Position.turn tree request) m ⟨r, back⟩ = some (.ok final) := by
  induction n using Nat.strongRecOn generalizing active cwd ps back origin with
  | ind n ih =>
    cases ps with
    | nil => exact ⟨cwd, n, le_refl n, .done, h⟩
    | cons part rest =>
      rw [List.map_cons, List.cons_append] at h
      obtain ⟨m, p', hn, hstep, hrun⟩ := run_step h
      have hm : m < n := by omega
      by_cases hdot : part = dot
      · subst hdot
        simp only [stepOfPart_dot, Position.step] at hstep
        by_cases hdirectory : tree.IsDirectory cwd
        · rw [if_pos hdirectory] at hstep
          cases hstep
          obtain ⟨r, k, hk, hwalks, hlast⟩ := ih m hm hends hfollowed.tail hrun
          exact ⟨r, k, by omega, .dot hdirectory hwalks, hlast⟩
        · rw [if_neg hdirectory] at hstep
          cases hstep
      · by_cases hdotDot : part = dotDot
        · subst hdotDot
          simp only [stepOfPart_dotDot, Position.step] at hstep
          by_cases hdirectory : tree.IsDirectory cwd
          · rw [if_pos hdirectory] at hstep
            by_cases hroot : cwd = []
            · rw [if_pos ⟨hroot, hconfined.rejects⟩] at hstep
              cases hstep
            · rw [if_neg fun hand => hroot hand.1] at hstep
              cases hstep
              obtain ⟨r, k, hk, hwalks, hlast⟩ := ih m hm hends hfollowed.tail hrun
              exact ⟨r, k, by omega, .dotDot hdirectory hroot hwalks, hlast⟩
          · rw [if_neg hdirectory] at hstep
            cases hstep
        · have hkeep := hfollowed.name hdot hdotDot origin
          rw [stepOfPart_name hdot hdotDot] at hstep
          simp only [Position.step] at hstep
          rw [if_neg hkeep] at hstep
          split at hstep
          next => cases hstep
          next target hlookup =>
            obtain ⟨hfresh, hp⟩ := expand_again hstep
            subst hp
            have hrest : endsOf (rest.map (stepOfPart origin) ++ back) =
                active.map tree.linkIdentity := by rw [endsOf_parts, hends]
            -- The target is walked first, up to the mark,
            obtain ⟨m₁, hm₁, hrun₁⟩ := run_stepsOf hrun
            have hmark : endsOf (trailingSteps target.bytes ++
                .endSymlink (tree.linkIdentity (cwd ++ [part])) ::
                  (rest.map (stepOfPart origin) ++ back)) =
                ((cwd ++ [part]) :: active).map tree.linkIdentity := by
              rw [endsOf_append, endsOf_trailingSteps, endsOf_end, hrest]
              rfl
            obtain ⟨mid, m₂, hm₂, htarget, hrun₂⟩ :=
              ih m₁ (by omega) hmark (followed_target hkeep) hrun₁
            obtain ⟨htrailing, m₃, hm₃, hrun₃⟩ := run_trailing hrun₂
            -- then the mark is dropped and the rest is walked from there.
            obtain ⟨m₄, p'', hm₄, hend, hrun₄⟩ := run_step hrun₃
            cases hend
            obtain ⟨r, k, hk, hwalks, hlast⟩ := ih m₄ (by omega) hends hfollowed.tail hrun₄
            exact ⟨r, k, by omega, .link hdot hdotDot hlookup
              (fun hmem => hfresh ((mem_ends_iff hrest).mpr hmem)) htarget htrailing hwalks, hlast⟩
          next found hfound hlookup =>
            cases hstep
            obtain ⟨r, k, hk, hwalks, hlast⟩ := ih m hm hends hfollowed.tail hrun
            exact ⟨r, k, by omega, .name hdot hdotDot hlookup
              (fun target heq => hfound target heq) hwalks, hlast⟩

/-- A path whose final name is kept, with that name last. -/
theorem keptFinal_some {followFinal : Bool} {path : OsString} {name : OsString}
    (h : keptFinal followFinal path = some name) :
    followFinal = false ∧ hasTrailingSeparator path = false ∧ name ≠ dot ∧ name ≠ dotDot ∧
      parts path = (parts path).dropLast ++ [name] := by
  unfold keptFinal at h
  split at h
  next => cases h
  next hnot =>
    rw [Bool.or_eq_true, not_or, Bool.not_eq_true, Bool.not_eq_true] at hnot
    rw [Option.filter_eq_some_iff] at h
    obtain ⟨hlast, hname⟩ := h
    rw [decide_eq_true_iff] at hname
    refine ⟨hnot.1, hnot.2, hname.1, hname.2, ?_⟩
    obtain ⟨front, hfront⟩ := List.getLast?_eq_some_iff.mp hlast
    rw [hfront, List.dropLast_concat]

theorem followed_of_keptFinal {path : OsString}
    (h : keptFinal request.followFinal path = none) :
    Followed request (parts path) (trailingSteps path) := by
  unfold keptFinal at h
  by_cases hleft : pendingActionsOf (trailingSteps path) = 0 ∧ request.followFinal = false
  · right
    have htrailing : ¬(request.followFinal || hasTrailingSeparator path) := by
      intro hor
      rw [hleft.2, Bool.false_or] at hor
      unfold trailingSteps at hleft
      rw [if_pos hor] at hleft
      exact absurd hleft.1 (by decide)
    rw [if_neg htrailing, Option.filter_eq_none_iff] at h
    intro last hlast
    have hnot := h last hlast
    by_cases hdot : last = dot
    · exact .inl hdot
    · by_cases hdotDot : last = dotDot
      · exact .inr hdotDot
      · exact absurd (decide_eq_true ⟨hdot, hdotDot⟩) hnot
  · exact .inl hleft

/-- The position ends well where the chroot leads. -/
theorem returns_ok_iff (hconfined : Confined request) (path : OsString) (names : List OsString) :
    Loop.Returns (Position.turn tree request) ⟨[], stepsOf path .input⟩ (.ok names) ↔
      ChrootResolves tree request.followFinal path names := by
  have hstart : Loop.Reaches (Position.turn tree request) ⟨[], stepsOf path .input⟩
      ⟨[], (parts path).map (stepOfPart .input) ++ trailingSteps path⟩ := by
    have hreaches := reaches_stepsOf tree request path .input [] []
    rwa [List.append_nil, List.append_nil, ite_self] at hreaches
  rw [hstart.returns_iff]
  cases hfinal : keptFinal request.followFinal path with
  | none =>
    have hfollowed := followed_of_keptFinal hfinal
    have hends : endsOf (trailingSteps path) = ([] : List (List OsString)).map tree.linkIdentity :=
      endsOf_trailingSteps path
    constructor
    · intro ⟨n, hn⟩
      obtain ⟨r, m, -, hwalks, hrun⟩ := walks_of_run hconfined hends hfollowed hn
      rw [← List.append_nil (trailingSteps path)] at hrun
      obtain ⟨htrailing, k, -, hlast⟩ := run_trailing hrun
      have hr : names = r := by
        have hdone : Loop.Returns (Position.turn tree request) ⟨r, []⟩ (.ok r) :=
          Loop.returns_done rfl
        exact Except.ok.inj (Loop.Returns.unique ⟨k, hlast⟩ hdone)
      exact hr ▸ .followed hfinal hwalks htrailing
    · intro hchroot
      cases hchroot with
      | followed _ hwalks htrailing =>
        have htail := reaches_trailing request htrailing []
        rw [List.append_nil] at htail
        rw [(hwalks.reaches hconfined hends hfollowed .input).returns_iff, htail.returns_iff]
        exact Loop.returns_done rfl
      | kept hkept =>
        rw [hfinal] at hkept
        cases hkept
  | some name =>
    obtain ⟨hfollow, htrailing, hdot, hdotDot, hparts⟩ := keptFinal_some hfinal
    have hsteps : (parts path).map (stepOfPart .input) ++ trailingSteps path =
        (parts path).dropLast.map (stepOfPart .input) ++ [.normal name .input] := by
      unfold trailingSteps
      rw [if_neg (by rw [htrailing]; decide), List.append_nil]
      conv_lhs => rw [hparts, List.map_append]
      rw [List.map_singleton, stepOfPart_name hdot hdotDot]
    -- The name is the only action left, so what comes before it is followed.
    have hfollowed : Followed request (parts path).dropLast [.normal name .input] :=
      .inl fun hand => absurd hand.1 (pendingActionsOf_cons_ne_zero rfl [])
    have hends : endsOf [.normal name .input] =
      ([] : List (List OsString)).map tree.linkIdentity := rfl
    have hkeep : ∀ dir, Loop.Reaches (Position.turn tree request)
        ⟨dir, [.normal name .input]⟩ ⟨dir ++ [name], []⟩ := fun dir => .single (if_pos ⟨rfl, hfollow⟩)
    rw [hsteps]
    constructor
    · intro ⟨n, hn⟩
      obtain ⟨dir, m, -, hwalks, hrun⟩ := walks_of_run hconfined hends hfollowed hn
      have hr : names = dir ++ [name] := by
        have hdone : Loop.Returns (Position.turn tree request) ⟨dir, [.normal name .input]⟩
            (.ok (dir ++ [name])) := (hkeep dir).returns_iff.mpr (Loop.returns_done rfl)
        exact Except.ok.inj (Loop.Returns.unique ⟨m, hrun⟩ hdone)
      exact hr ▸ .kept hfinal hwalks
    · intro hchroot
      cases hchroot with
      | followed hnone =>
        rw [hfinal] at hnone
        cases hnone
      | @kept dir name' hkept hwalks =>
        obtain rfl : name = name' := Option.some.inj (hfinal.symm.trans hkept)
        rw [(hwalks.reaches hconfined hends hfollowed .input).returns_iff, (hkeep dir).returns_iff]
        exact Loop.returns_done rfl

end Queue

/-! ## 5. Where a walk ends -/

section Ends

variable {tree : StaticTree}

/-- No link on the way, the end included. -/
def LinkFree (tree : StaticTree) (path : List OsString) : Prop :=
  ∀ front back target, path = front ++ back → tree.node front ≠ some (.symlink target)

theorem LinkFree.dropLast {path : List OsString} (h : LinkFree tree path) :
    LinkFree tree path.dropLast := by
  intro front back target heq
  by_cases hempty : path = []
  · subst hempty
    exact h front back target heq
  · apply h front (back ++ [path.getLast hempty])
    rw [← List.append_assoc, ← heq, List.dropLast_append_getLast]

theorem linkFree_nil : LinkFree tree [] := by
  intro front back target heq
  obtain ⟨rfl, -⟩ := List.append_eq_nil_iff.mp heq.symm
  rw [tree.root]
  nofun

theorem linkFree_append {path : List OsString} {name : OsString} (h : LinkFree tree path)
    (hname : ∀ target, tree.node (path ++ [name]) ≠ some (.symlink target)) :
    LinkFree tree (path ++ [name]) := by
  intro front back target heq
  by_cases hback : back = []
  · rw [hback, List.append_nil] at heq
    rw [← heq]
    exact hname target
  · apply h front back.dropLast
    have hsplit := congrArg List.dropLast heq
    rwa [List.dropLast_concat, List.dropLast_append_of_ne_nil hback] at hsplit

theorem node_of_lookup_some {path : List OsString} {name : OsString} {found : Option Node}
    (h : tree.lookup path name = .ok found) : tree.node (path ++ [name]) = found := by
  obtain hdirectory | hmissing := lookup_leads h
  · rw [StaticTree.lookup_directory hdirectory] at h
    exact Except.ok.inj h
  · rw [StaticTree.lookup_missing hmissing] at h
    rw [StaticTree.node_append_none hmissing]
    exact Except.ok.inj h

theorem Walks.linkFree {active : List (List OsString)} {cwd ps r : List OsString}
    (h : Walks tree active cwd ps r) (hcwd : LinkFree tree cwd) : LinkFree tree r := by
  induction h with
  | done => exact hcwd
  | dot _ _ ih => exact ih hcwd
  | dotDot _ _ _ ih => exact ih hcwd.dropLast
  | name _ _ hlookup hfound _ ih =>
    exact ih (linkFree_append hcwd fun target => node_of_lookup_some hlookup ▸ hfound target)
  | @link _ cwd _ _ _ _ target _ _ _ _ _ _ _ iht ihr =>
    refine ihr (iht ?_)
    by_cases habsolute : isAbsolute target.bytes
    · rw [if_pos habsolute]
      exact linkFree_nil
    · rw [if_neg habsolute]
      exact hcwd

/-- The parts of a Unix path that are not dots are names. -/
def PartsOfPath (ps : List OsString) : Prop :=
  ∀ part ∈ ps, part ≠ dot → part ≠ dotDot → IsName part

theorem partsOfPath (path : UnixPath) : PartsOfPath (parts path.bytes) :=
  fun _ hpart hdot hdotDot => isName_of_mem_parts path.noNul hpart hdot hdotDot

theorem Walks.isName {active : List (List OsString)} {cwd ps r : List OsString}
    (h : Walks tree active cwd ps r) (hps : PartsOfPath ps) (hcwd : ∀ name ∈ cwd, IsName name) :
    ∀ name ∈ r, IsName name := by
  induction h with
  | done => exact hcwd
  | dot _ _ ih => exact ih (fun part hpart => hps part (List.mem_cons_of_mem _ hpart)) hcwd
  | dotDot _ _ _ ih =>
    exact ih (fun part hpart => hps part (List.mem_cons_of_mem _ hpart))
      fun name hname => hcwd name (List.dropLast_subset _ hname)
  | name hdot hdotDot _ _ _ ih =>
    refine ih (fun part hpart => hps part (List.mem_cons_of_mem _ hpart)) fun n hn => ?_
    rw [List.mem_append, List.mem_singleton] at hn
    obtain hn | rfl := hn
    · exact hcwd n hn
    · exact hps n List.mem_cons_self hdot hdotDot
  | @link _ cwd _ _ _ _ target _ _ _ _ _ _ _ iht ihr =>
    refine ihr (fun part hpart => hps part (List.mem_cons_of_mem _ hpart))
      (iht (partsOfPath target) ?_)
    by_cases habsolute : isAbsolute target.bytes
    · rw [if_pos habsolute]
      exact fun _ hname => absurd hname List.not_mem_nil
    · rw [if_neg habsolute]
      exact hcwd

theorem ChrootResolves.isName {followFinal : Bool} {path : UnixPath} {names : List OsString}
    (h : ChrootResolves tree followFinal path.bytes names) : ∀ name ∈ names, IsName name := by
  have hroot : ∀ name ∈ ([] : List OsString), IsName name :=
    fun _ hname => absurd hname List.not_mem_nil
  cases h with
  | followed _ hwalks _ => exact hwalks.isName (partsOfPath path) hroot
  | kept hfinal hwalks =>
    obtain ⟨-, -, hdot, hdotDot, hparts⟩ := keptFinal_some hfinal
    have hps : PartsOfPath (parts path.bytes).dropLast :=
      fun part hpart => partsOfPath path part (List.dropLast_subset _ hpart)
    intro name hname
    rw [List.mem_append, List.mem_singleton] at hname
    obtain hname | rfl := hname
    · exact hwalks.isName hps hroot name hname
    · exact partsOfPath path name (by rw [hparts]; simp) hdot hdotDot

/-- A path leads over no link; a final name that is kept may be one. -/
theorem ChrootResolves.linkFree {followFinal : Bool} {path : UnixPath} {names : List OsString}
    (h : ChrootResolves tree followFinal path.bytes names) :
    LinkFree tree names.dropLast ∧
      (keptFinal followFinal path.bytes = none → LinkFree tree names) := by
  cases h with
  | followed _ hwalks _ =>
    have hnames := hwalks.linkFree linkFree_nil
    exact ⟨hnames.dropLast, fun _ => hnames⟩
  | kept hfinal hwalks =>
    refine ⟨?_, fun hnone => ?_⟩
    · rw [List.dropLast_concat]
      exact hwalks.linkFree linkFree_nil
    · rw [hfinal] at hnone
      cases hnone

variable (tree) (path : UnixPath) (followFinal : Bool) (operation : LocalFileOperation)
  (original : OsString) (scope : LocalResolutionScope)

/-- The resolver leads where the chroot leads, and fails where the chroot does.  What it leads to
    stays in the root: normal components, and no link before the last one. -/
theorem resolution_is_chroot :
    (∀ result, Resolves tree .unrestricted
        (.following followFinal operation original scope .rejectEscape) none path.bytes
        (.ok result) ↔
      ∃ names, ChrootResolves tree followFinal path.bytes names ∧ result = ofNames names) ∧
    ((∃ error, Resolves tree .unrestricted
        (.following followFinal operation original scope .rejectEscape) none path.bytes
        (.error error)) ↔
      ∀ names, ¬ChrootResolves tree followFinal path.bytes names) ∧
    ∀ names, ChrootResolves tree followFinal path.bytes names →
      components (ofNames names) = names.map .normal ∧ LinkFree tree names.dropLast ∧
        (keptFinal followFinal path.bytes = none → LinkFree tree names) := by
  have hconfined : Confined (.following followFinal operation original scope .rejectEscape) :=
    ⟨by nofun, rfl⟩
  have hok : ∀ result, Resolves tree .unrestricted
      (.following followFinal operation original scope .rejectEscape) none path.bytes
      (.ok result) ↔
      ∃ names, ChrootResolves tree followFinal path.bytes names ∧ result = ofNames names := by
    intro result
    constructor
    · intro hresolves
      obtain ⟨end', hreturns⟩ := Position.exists_returns
        (.following followFinal operation original scope .rejectEscape)
        (Position.open_start tree path.bytes .input)
      obtain ⟨result', hresolves', houtcome⟩ := resolves_of_returns tree path followFinal operation
        original scope .rejectEscape hreturns
      cases hresolves.unique hresolves'
      cases houtcome with
      | ok => exact ⟨_, (returns_ok_iff hconfined path.bytes _).mp hreturns, rfl⟩
    · intro ⟨names, hchroot, hresult⟩
      obtain ⟨result', hresolves, houtcome⟩ := resolves_of_returns tree path followFinal operation
        original scope .rejectEscape ((returns_ok_iff hconfined path.bytes names).mpr hchroot)
      cases houtcome with
      | ok => exact hresult ▸ hresolves
  refine ⟨hok, ?_, fun names hchroot =>
    ⟨components_ofNames hchroot.isName, hchroot.linkFree.1, hchroot.linkFree.2⟩⟩
  constructor
  · intro ⟨error, hresolves⟩ names hchroot
    cases hresolves.unique ((hok (ofNames names)).mpr ⟨names, hchroot, rfl⟩)
  · intro hnone
    obtain ⟨result, hresolves⟩ := exists_resolves path none
    cases result with
    | error error => exact ⟨error, hresolves⟩
    | ok result =>
      obtain ⟨names, hchroot, -⟩ := (hok result).mp hresolves
      exact absurd hchroot (hnone names)

end Ends

end LocalFiles.Rooted
