import Mathlib.Data.List.Induction

/-!
# Trails of scopes and names

A program read from left to right opens and closes scopes, declares things and mentions them.  The
trail of these marks is all that lexical scoping depends on: a declaration can be seen from a later
place when no scope that was open at the declaration has been closed in between, and the number of
scopes opened and still open tells how far out it stands.  The frames of a trail are the stack that
a single pass over it keeps; both views agree.
-/

namespace Barista
namespace Scoping

variable {α β : Type}

inductive Mark (α : Type)
  | enter
  | leave
  | bind (a : α)
  | use (a : α)
deriving DecidableEq, Repr

namespace Mark

def map (f : α → β) : Mark α → Mark β
  | enter => enter
  | leave => leave
  | bind a => bind (f a)
  | use a => use (f a)

def isEnter : Mark α → Bool
  | enter => true
  | _ => false

def isLeave : Mark α → Bool
  | leave => true
  | _ => false

def bound? : Mark α → Option α
  | bind a => some a
  | _ => none

/-- What a mark declares or mentions. -/
def content? : Mark α → Option α
  | bind a | use a => some a
  | _ => none

theorem map_eq_bind_iff {f : α → β} {m : Mark α} {b : β} :
    m.map f = bind b ↔ ∃ a, m = bind a ∧ f a = b := by
  cases m <;> simp [map]

theorem map_eq_use_iff {f : α → β} {m : Mark α} {b : β} :
    m.map f = use b ↔ ∃ a, m = use a ∧ f a = b := by
  cases m <;> simp [map]

@[simp] theorem isEnter_map (f : α → β) (m : Mark α) : (m.map f).isEnter = m.isEnter := by
  cases m <;> rfl

@[simp] theorem isLeave_map (f : α → β) (m : Mark α) : (m.map f).isLeave = m.isLeave := by
  cases m <;> rfl

end Mark

abbrev Trail (α : Type) := List (Mark α)

namespace Trail

/-- A trail in a scope of its own. -/
def nested (t : Trail α) : Trail α := .enter :: t ++ [.leave]

/-- What is declared along a trail, in order. -/
def bound (t : Trail α) : List α := t.filterMap Mark.bound?

/-- What is declared or mentioned along a trail, in order. -/
def contents (t : Trail α) : List α := t.filterMap Mark.content?

@[simp] theorem bound_nil : bound ([] : Trail α) = [] := rfl

@[simp] theorem bound_cons_bind (a : α) (t : Trail α) : bound (.bind a :: t) = a :: bound t := rfl

@[simp] theorem bound_cons_use (a : α) (t : Trail α) : bound (.use a :: t) = bound t := rfl

@[simp] theorem bound_append (s t : Trail α) : bound (s ++ t) = bound s ++ bound t :=
  List.filterMap_append

@[simp] theorem bound_nested (t : Trail α) : bound (nested t) = bound t := by
  have h : bound (nested t) = bound t ++ bound [.leave] := bound_append t [.leave]
  rw [h]
  exact List.append_nil _

@[simp] theorem bound_map_use (as : List α) : bound (as.map .use) = [] := by
  induction as with
  | nil => rfl
  | cons a as ih => exact ih

@[simp] theorem bound_map_bind (as : List α) : bound (as.map .bind) = as := by
  induction as with
  | nil => rfl
  | cons a as ih => rw [List.map_cons, bound_cons_bind, ih]

@[simp] theorem contents_nil : contents ([] : Trail α) = [] := rfl

@[simp] theorem contents_cons_bind (a : α) (t : Trail α) :
    contents (.bind a :: t) = a :: contents t := rfl

@[simp] theorem contents_cons_use (a : α) (t : Trail α) :
    contents (.use a :: t) = a :: contents t := rfl

@[simp] theorem contents_append (s t : Trail α) : contents (s ++ t) = contents s ++ contents t :=
  List.filterMap_append

@[simp] theorem contents_nested (t : Trail α) : contents (nested t) = contents t := by
  have h : contents (nested t) = contents t ++ contents [.leave] := contents_append t [.leave]
  rw [h]
  exact List.append_nil _

@[simp] theorem contents_map_use (as : List α) : contents (as.map .use) = as := by
  induction as with
  | nil => rfl
  | cons a as ih => rw [List.map_cons, contents_cons_use, ih]

@[simp] theorem contents_map_bind (as : List α) : contents (as.map .bind) = as := by
  induction as with
  | nil => rfl
  | cons a as ih => rw [List.map_cons, contents_cons_bind, ih]

theorem mem_bound_iff {t : Trail α} {a : α} : a ∈ bound t ↔ .bind a ∈ t := by
  simp only [bound, List.mem_filterMap]
  constructor
  · rintro ⟨m, hm, h⟩
    cases m <;> cases h
    exact hm
  · intro h
    exact ⟨.bind a, h, rfl⟩

theorem mem_contents_iff {t : Trail α} {a : α} : a ∈ contents t ↔ .bind a ∈ t ∨ .use a ∈ t := by
  simp only [contents, List.mem_filterMap]
  constructor
  · rintro ⟨m, hm, h⟩
    cases m <;> cases h
    · exact .inl hm
    · exact .inr hm
  · rintro (h | h)
    · exact ⟨.bind a, h, rfl⟩
    · exact ⟨.use a, h, rfl⟩

def enters (t : Trail α) : Nat := t.countP Mark.isEnter

def leaves (t : Trail α) : Nat := t.countP Mark.isLeave

/-- No scope that was open in front of the trail is left along it. -/
def StaysOpen (t : Trail α) : Prop :=
  ∀ pre, pre <+: t → leaves pre ≤ enters pre

/-- Seen from the end of the trail, the scope `out` levels further out declares `a`. -/
def Declares (t : Trail α) (out : Nat) (a : α) : Prop :=
  ∃ before behind : Trail α, t = before ++ .bind a :: behind ∧
    StaysOpen behind ∧ enters behind = leaves behind + out

/-- The innermost of the scopes that declare a name declares it once, as `a`. -/
def Resolves (key : α → String) (t : Trail α) (name : String) (a : α) : Prop :=
  ∃ out, Declares t out a ∧ key a = name ∧
    ∀ out' b, Declares t out' b → key b = name → out < out' ∨ (out' = out ∧ b = a)

@[simp] theorem enters_append (s t : Trail α) : enters (s ++ t) = enters s + enters t :=
  List.countP_append

@[simp] theorem leaves_append (s t : Trail α) : leaves (s ++ t) = leaves s + leaves t :=
  List.countP_append

@[simp] theorem enters_map (f : α → β) (t : Trail α) : enters (t.map (Mark.map f)) = enters t := by
  simp [enters, List.countP_map, Function.comp_def]

@[simp] theorem leaves_map (f : α → β) (t : Trail α) : leaves (t.map (Mark.map f)) = leaves t := by
  simp [leaves, List.countP_map, Function.comp_def]

theorem staysOpen_nil : StaysOpen ([] : Trail α) := by
  intro pre hpre
  rw [List.prefix_nil] at hpre
  simp [hpre, leaves]

theorem StaysOpen.leaves_le {t : Trail α} (h : StaysOpen t) : leaves t ≤ enters t :=
  h t (List.prefix_refl t)

theorem staysOpen_concat_iff (t : Trail α) (m : Mark α) :
    StaysOpen (t ++ [m]) ↔ StaysOpen t ∧ leaves t + leaves [m] ≤ enters t + enters [m] := by
  constructor
  · intro h
    refine ⟨fun pre hpre ↦ h pre (hpre.trans (List.prefix_append _ _)), ?_⟩
    simpa only [enters_append, leaves_append] using h.leaves_le
  · rintro ⟨ht, hlast⟩ pre hpre
    rcases List.prefix_concat_iff.1 hpre with rfl | hpre
    · simpa only [enters_append, leaves_append] using hlast
    · exact ht pre hpre

theorem staysOpen_map_iff (f : α → β) (t : Trail α) :
    StaysOpen (t.map (Mark.map f)) ↔ StaysOpen t := by
  constructor
  · intro h pre hpre
    simpa using h _ (hpre.map (Mark.map f))
  · intro h pre hpre
    obtain ⟨front, hfront, rfl⟩ := List.prefix_map_iff.1 hpre
    simpa using h front hfront

theorem not_declares_nil (out : Nat) (a : α) : ¬ Declares [] out a := by
  rintro ⟨before, behind, h, -⟩
  simp at h

/-- A place in a list with one more element is the last one or was there before. -/
theorem concat_eq_append_cons {t pre post : List α} {m m' : α} (h : t ++ [m] = pre ++ m' :: post) :
    (pre = t ∧ m' = m ∧ post = []) ∨ ∃ front, post = front ++ [m] ∧ t = pre ++ m' :: front := by
  rcases List.eq_nil_or_concat post with rfl | ⟨front, last, rfl⟩
  · obtain ⟨rfl, hlast⟩ := List.append_inj' h rfl
    cases hlast
    exact .inl ⟨rfl, rfl, rfl⟩
  · have h' : t ++ [m] = (pre ++ m' :: front) ++ [last] := by simpa using h
    obtain ⟨rfl, hlast⟩ := List.append_inj' h' rfl
    cases hlast
    exact .inr ⟨front, List.concat_eq_append, rfl⟩

/-- A declaration in a trail is its last mark or stands in front of it. -/
theorem declares_concat_iff {t : Trail α} {m : Mark α} {out : Nat} {a : α} :
    Declares (t ++ [m]) out a ↔ (m = .bind a ∧ out = 0) ∨
      ∃ before behind : Trail α, t = before ++ .bind a :: behind ∧ StaysOpen behind ∧
        leaves behind + leaves [m] ≤ enters behind + enters [m] ∧
        enters behind + enters [m] = leaves behind + leaves [m] + out := by
  constructor
  · rintro ⟨before, behind, h, hopen, hout⟩
    rcases concat_eq_append_cons h with ⟨-, rfl, rfl⟩ | ⟨front, rfl, rfl⟩
    · exact .inl ⟨rfl, by simpa [enters, leaves] using hout.symm⟩
    · rw [staysOpen_concat_iff] at hopen
      rw [enters_append, leaves_append] at hout
      exact .inr ⟨before, front, rfl, hopen.1, hopen.2, hout⟩
  · rintro (⟨rfl, rfl⟩ | ⟨before, behind, rfl, hopen, hle, hout⟩)
    · exact ⟨t, [], rfl, staysOpen_nil, rfl⟩
    · refine ⟨before, behind ++ [m], by simp, (staysOpen_concat_iff _ _).2 ⟨hopen, hle⟩, ?_⟩
      simpa only [enters_append, leaves_append] using hout

theorem declares_concat_enter {t : Trail α} {out : Nat} {a : α} :
    Declares (t ++ [.enter]) out a ↔ ∃ inner, out = inner + 1 ∧ Declares t inner a := by
  have he : enters ([.enter] : Trail α) = 1 := rfl
  have hl : leaves ([.enter] : Trail α) = 0 := rfl
  rw [declares_concat_iff, he, hl]
  constructor
  · rintro (⟨h, -⟩ | ⟨before, behind, rfl, hopen, -, hout⟩)
    · cases h
    · have hle := hopen.leaves_le
      exact ⟨enters behind - leaves behind, by omega, before, behind, rfl, hopen, by omega⟩
  · rintro ⟨inner, rfl, before, behind, rfl, hopen, hout⟩
    have hle := hopen.leaves_le
    exact .inr ⟨before, behind, rfl, hopen, by omega, by omega⟩

theorem declares_concat_leave {t : Trail α} {out : Nat} {a : α} :
    Declares (t ++ [.leave]) out a ↔ Declares t (out + 1) a := by
  have he : enters ([.leave] : Trail α) = 0 := rfl
  have hl : leaves ([.leave] : Trail α) = 1 := rfl
  rw [declares_concat_iff, he, hl]
  constructor
  · rintro (⟨h, -⟩ | ⟨before, behind, rfl, hopen, -, hout⟩)
    · cases h
    · exact ⟨before, behind, rfl, hopen, by omega⟩
  · rintro ⟨before, behind, rfl, hopen, hout⟩
    exact .inr ⟨before, behind, rfl, hopen, by omega, by omega⟩

theorem declares_concat_bind {t : Trail α} {out : Nat} {a b : α} :
    Declares (t ++ [.bind b]) out a ↔ (a = b ∧ out = 0) ∨ Declares t out a := by
  have he : enters ([.bind b] : Trail α) = 0 := rfl
  have hl : leaves ([.bind b] : Trail α) = 0 := rfl
  rw [declares_concat_iff, he, hl]
  constructor
  · rintro (⟨h, rfl⟩ | ⟨before, behind, rfl, hopen, -, hout⟩)
    · cases h
      exact .inl ⟨rfl, rfl⟩
    · exact .inr ⟨before, behind, rfl, hopen, by omega⟩
  · rintro (⟨rfl, rfl⟩ | ⟨before, behind, rfl, hopen, hout⟩)
    · exact .inl ⟨rfl, rfl⟩
    · exact .inr ⟨before, behind, rfl, hopen, by omega, by omega⟩

theorem declares_concat_use {t : Trail α} {out : Nat} {a b : α} :
    Declares (t ++ [.use b]) out a ↔ Declares t out a := by
  have he : enters ([.use b] : Trail α) = 0 := rfl
  have hl : leaves ([.use b] : Trail α) = 0 := rfl
  rw [declares_concat_iff, he, hl]
  constructor
  · rintro (⟨h, -⟩ | ⟨before, behind, rfl, hopen, -, hout⟩)
    · cases h
    · exact ⟨before, behind, rfl, hopen, by omega⟩
  · rintro ⟨before, behind, rfl, hopen, hout⟩
    exact .inr ⟨before, behind, rfl, hopen, by omega, by omega⟩

/-- Renaming what the marks carry moves no declaration. -/
theorem declares_map_iff {f : α → β} {t : Trail α} {out : Nat} {b : β} :
    Declares (t.map (Mark.map f)) out b ↔ ∃ a, f a = b ∧ Declares t out a := by
  constructor
  · rintro ⟨before, behind, h, hopen, hout⟩
    obtain ⟨front, back, rfl, rfl, hback⟩ := List.map_eq_append_iff.1 h
    obtain ⟨m, rest, rfl, hm, rfl⟩ := List.map_eq_cons_iff.1 hback
    obtain ⟨a, rfl, rfl⟩ := Mark.map_eq_bind_iff.1 hm
    exact ⟨a, rfl, front, rest, rfl, (staysOpen_map_iff f rest).1 hopen, by simpa using hout⟩
  · rintro ⟨a, rfl, before, behind, rfl, hopen, hout⟩
    exact ⟨before.map (Mark.map f), behind.map (Mark.map f), by simp [Mark.map],
      (staysOpen_map_iff f behind).2 hopen, by simpa using hout⟩

/-- What is declared at the end of a trail was bound along it. -/
theorem Declares.mem {t : Trail α} {out : Nat} {a : α} (h : Declares t out a) :
    .bind a ∈ t := by
  obtain ⟨before, behind, rfl, -⟩ := h
  simp

/-! ## The frames of a trail -/

/-- One mark changes the stack of frames, the innermost frame first. -/
def step (frames : List (List α)) : Mark α → List (List α)
  | .enter => [] :: frames
  | .leave => frames.tail
  | .bind a => (a :: frames.headD []) :: frames.tail
  | .use _ => frames

def run (frames : List (List α)) (t : Trail α) : List (List α) :=
  t.foldl step frames

/-- The declarations that can be seen from the end of a trail, scope by scope. -/
def frames (t : Trail α) : List (List α) := run [[]] t

@[simp] theorem run_nil (fs : List (List α)) : run fs [] = fs := rfl

@[simp] theorem run_cons (fs : List (List α)) (m : Mark α) (t : Trail α) :
    run fs (m :: t) = run (step fs m) t := rfl

@[simp] theorem run_append (fs : List (List α)) (s t : Trail α) :
    run fs (s ++ t) = run (run fs s) t :=
  List.foldl_append

theorem frames_append (s t : Trail α) : frames (s ++ t) = run (frames s) t :=
  run_append _ s t

/-- Uses alone leave the frames as they are. -/
@[simp] theorem run_map_use (fs : List (List α)) (as : List α) : run fs (as.map .use) = fs := by
  induction as with
  | nil => rfl
  | cons a as ih => simpa [step] using ih

@[simp] theorem run_map_bind (f : List α) (fs : List (List α)) (as : List α) :
    run (f :: fs) (as.map .bind) = (as.reverse ++ f) :: fs := by
  induction as generalizing f with
  | nil => rfl
  | cons a as ih => simp [step, ih]

/-- The frame at the given level; there is nothing in frames that do not exist. -/
def level (fs : List (List α)) (out : Nat) : List α := fs.getD out []

/-- Both views of a trail agree: a scope declares what its frame holds. -/
theorem declares_iff_mem_level {t : Trail α} {out : Nat} {a : α} :
    Declares t out a ↔ a ∈ level (frames t) out := by
  induction t using List.reverseRecOn generalizing out with
  | nil =>
      constructor
      · intro h
        exact (not_declares_nil out a h).elim
      · intro h
        cases out <;> simp [level, frames] at h
  | append_singleton t m ih =>
      rw [frames_append]
      cases m with
      | enter =>
          rw [declares_concat_enter]
          cases out with
          | zero => simp [level, step]
          | succ out => simp [level, step, ih]
      | leave =>
          rw [declares_concat_leave, ih]
          cases h : frames t <;> simp [level, step]
      | bind b =>
          rw [declares_concat_bind, ih]
          cases h : frames t <;> cases out <;> simp [level, step]
      | use b =>
          rw [declares_concat_use, ih]
          simp [step]

theorem exists_declares_iff {t : Trail α} {a : α} :
    (∃ out, Declares t out a) ↔ ∃ frame ∈ frames t, a ∈ frame := by
  simp only [declares_iff_mem_level, level, List.getD_eq_getElem?_getD]
  constructor
  · rintro ⟨out, ha⟩
    cases hframe : (frames t)[out]? with
    | none =>
        rw [hframe] at ha
        cases ha
    | some frame =>
        rw [hframe] at ha
        exact ⟨frame, List.mem_of_getElem? hframe, ha⟩
  · rintro ⟨frame, hframe, ha⟩
    obtain ⟨out, hout⟩ := List.mem_iff_getElem?.1 hframe
    refine ⟨out, ?_⟩
    rw [hout]
    exact ha

end Trail
end Scoping
end Barista
