import Barista.Proofs.Scoping.Occurrence
import Barista.Analysis.Statement
import Mathlib.Data.List.Nodup

/-!
# Scopes follow trails

A link is an identifier together with the entity it stands for.  A trail of links is lawful when
every identifier it mentions resolves to its own entity and none is declared twice in one scope.
The scope that analysis keeps is the stack of frames of the trail that it has passed: looking a name
up there is resolving it on the trail.
-/

namespace Barista
namespace Analysis

open Barista.Core (Entity)
open Scoping Scoping.Trail

structure Link where
  name : Surface.Name
  entity : Entity

namespace Link

def text (l : Link) : String := l.name.text

def entry (l : Link) : String × Entity := (l.text, l.entity)

end Link

/-- What lexical scoping asks of a mark behind a trail. -/
def LawfulAfter (t : Trail Link) : Mark Link → Prop
  | .use l => ∃ declaration, Resolves Link.text t l.text declaration ∧ declaration.entity = l.entity
  | .bind l => ∀ other, Declares t 0 other → other.text ≠ l.text
  | _ => True

def Lawful (t : Trail Link) : Prop :=
  ∀ pre m post, t = pre ++ m :: post → LawfulAfter pre m

theorem lawful_nil : Lawful [] := by
  intro pre m post h
  simp at h

theorem lawful_concat_iff {t : Trail Link} {m : Mark Link} :
    Lawful (t ++ [m]) ↔ Lawful t ∧ LawfulAfter t m := by
  constructor
  · intro h
    refine ⟨?_, h t m [] rfl⟩
    rintro pre m' post rfl
    exact h pre m' (post ++ [m]) (by simp)
  · rintro ⟨ht, hm⟩ pre m' post h
    rcases concat_eq_append_cons h with ⟨rfl, rfl, -⟩ | ⟨front, -, hfront⟩
    · exact hm
    · exact ht pre m' front hfront

/-- On a lawful trail no scope holds two declarations of one name. -/
theorem Lawful.nodup_frames {t : Trail Link} (h : Lawful t) :
    ∀ frame ∈ frames t, (frame.map Link.text).Nodup := by
  induction t using List.reverseRecOn with
  | nil => simp [frames]
  | append_singleton t m ih =>
      obtain ⟨ht, hm⟩ := lawful_concat_iff.1 h
      have hframes := ih ht
      rw [frames_append, run_cons, run_nil]
      cases m with
      | enter =>
          intro frame hframe
          rcases List.mem_cons.1 hframe with rfl | hframe
          · exact List.nodup_nil
          · exact hframes frame hframe
      | leave =>
          intro frame hframe
          exact hframes frame (List.mem_of_mem_tail hframe)
      | use l => exact hframes
      | bind l =>
          intro frame hframe
          rcases List.mem_cons.1 hframe with rfl | hframe
          · rw [List.map_cons, List.nodup_cons]
            constructor
            · intro hmem
              obtain ⟨other, hother, htext⟩ := List.mem_map.1 hmem
              refine hm other (declares_iff_mem_level.2 ?_) htext
              cases hfs : frames t <;> simp_all [level]
            · cases hfs : frames t with
              | nil => exact List.nodup_nil
              | cons f fs => exact hframes f (by simp [hfs])
          · exact hframes frame (List.mem_of_mem_tail hframe)

/-- On a lawful trail, what is mentioned can be seen from there. -/
theorem Lawful.declares_of_use {t : Trail Link} (h : Lawful t) {pre post : Trail Entity}
    {entity : Entity} (huse : t.map (Mark.map Link.entity) = pre ++ .use entity :: post) :
    ∃ out, Declares pre out entity := by
  obtain ⟨front, rest, rfl, rfl, hrest⟩ := List.map_eq_append_iff.1 huse
  obtain ⟨m, back, rfl, hm, -⟩ := List.map_eq_cons_iff.1 hrest
  obtain ⟨l, rfl, rfl⟩ := Mark.map_eq_use_iff.1 hm
  obtain ⟨declaration, ⟨out, hdeclares, -⟩, hsame⟩ := h front _ back rfl
  exact ⟨out, declares_map_iff.2 ⟨declaration, hsame, hdeclares⟩⟩

/-- On a lawful trail, what is mentioned has been declared. -/
theorem Lawful.bound_of_contents {t : Trail Link} (h : Lawful t) {entity : Entity}
    (he : entity ∈ contents (t.map (Mark.map Link.entity))) :
    entity ∈ bound (t.map (Mark.map Link.entity)) := by
  rw [mem_bound_iff]
  rcases mem_contents_iff.1 he with hbind | huse
  · exact hbind
  · obtain ⟨pre, post, hsplit⟩ := List.append_of_mem huse
    obtain ⟨out, hdeclares⟩ := h.declares_of_use hsplit
    rw [hsplit]
    exact List.mem_append_left _ hdeclares.mem

/-- The scope is the stack of frames of the lawful trail that has been passed. -/
structure Follows (scope : Scope) (t : Trail Link) : Prop where
  frames_eq : (frames t).map (List.map Link.entry) = scope.inner :: scope.outer
  lawful : Lawful t

theorem follows_empty : Follows .empty [] :=
  ⟨rfl, lawful_nil⟩

namespace Follows

variable {scope : Scope} {t : Trail Link}

theorem lookup?_eq (h : Follows scope t) (name : String) :
    scope.lookup? name =
      ((frames t).map (List.map Link.entry)).findSome? fun frame ↦ frame.lookup name := by
  rw [h.frames_eq]
  rfl

theorem resolves_of_lookup? (h : Follows scope t) {name : String} {entity : Entity}
    (hfound : scope.lookup? name = some entity) :
    ∃ declaration, Resolves Link.text t name declaration ∧ declaration.entity = entity := by
  rw [h.lookup?_eq, List.findSome?_eq_some_iff] at hfound
  obtain ⟨inside, entries, outside, hsplit, hlookup, hinside⟩ := hfound
  obtain ⟨inner, rest, hframes, rfl, hrest⟩ := List.map_eq_append_iff.1 hsplit
  obtain ⟨frame, outer, rfl, rfl, -⟩ := List.map_eq_cons_iff.1 hrest
  obtain ⟨l₁, l₂, hentries, -⟩ := List.lookup_eq_some_iff.1 hlookup
  have hmem : (name, entity) ∈ frame.map Link.entry := by simp [hentries]
  obtain ⟨l, hl, hentry⟩ := List.mem_map.1 hmem
  obtain ⟨htext, hentity⟩ := Prod.mk.inj hentry
  have hlevel : level (frames t) inner.length = frame := by simp [level, hframes]
  refine ⟨l, ⟨inner.length, declares_iff_mem_level.2 (hlevel ▸ hl), htext, ?_⟩, hentity⟩
  intro out other hother htext'
  rw [declares_iff_mem_level] at hother
  rcases Nat.lt_trichotomy out inner.length with hlt | rfl | hgt
  · -- further in, no frame has the name
    have hin : level (frames t) out = inner[out] := by
      simp [level, hframes, List.getElem?_append_left hlt, List.getElem?_eq_getElem hlt]
    have hnone := hinside _ (List.mem_map_of_mem (List.getElem_mem hlt))
    rw [List.lookup_eq_none_iff] at hnone
    rw [hin] at hother
    have hne := hnone _ (List.mem_map_of_mem hother)
    simp [Link.entry, htext'] at hne
  · right
    rw [hlevel] at hother
    have hnodup := h.lawful.nodup_frames frame (by simp [hframes])
    exact ⟨rfl, List.inj_on_of_nodup_map hnodup hother hl (htext'.trans htext.symm)⟩
  · exact .inl hgt

theorem not_declares_of_lookup? (h : Follows scope t) {name : String}
    (hmissing : scope.lookup? name = none) {out : Nat} {l : Link} (hl : Declares t out l) :
    l.text ≠ name := by
  rw [h.lookup?_eq, List.findSome?_eq_none_iff] at hmissing
  obtain ⟨frame, hframe, hmem⟩ := exists_declares_iff.1 ⟨out, hl⟩
  intro htext
  have hnone := hmissing _ (List.mem_map_of_mem hframe)
  rw [List.lookup_eq_none_iff] at hnone
  have hne := hnone _ (List.mem_map_of_mem hmem)
  simp [Link.entry, htext] at hne

/-- The innermost frame declares a name exactly when the trail does in its innermost scope. -/
theorem declares_iff (h : Follows scope t) (name : String) :
    scope.declares name = true ↔ ∃ l, Declares t 0 l ∧ l.text = name := by
  have hinner : (level (frames t) 0).map Link.entry = scope.inner := by
    have hframes := h.frames_eq
    cases hfs : frames t with
    | nil => simp [hfs] at hframes
    | cons f fs =>
        rw [hfs] at hframes
        simpa [level] using (List.cons.inj hframes).1
  rw [Scope.declares, List.lookup_isSome_iff, ← hinner]
  simp only [declares_iff_mem_level, List.mem_map]
  constructor
  · rintro ⟨_, ⟨l, hl, rfl⟩, htext⟩
    exact ⟨l, hl, (beq_iff_eq.1 htext).symm⟩
  · rintro ⟨l, hl, rfl⟩
    exact ⟨_, ⟨l, hl, rfl⟩, beq_self_eq_true _⟩

theorem enter (h : Follows scope t) : Follows scope.enter (t ++ [.enter]) := by
  refine ⟨?_, lawful_concat_iff.2 ⟨h.lawful, trivial⟩⟩
  rw [frames_append, run_cons, run_nil, step, List.map_cons, h.frames_eq]
  rfl

theorem declare (h : Follows scope t) {l : Link} (hnew : scope.declares l.text = false) :
    Follows (scope.declare l.text l.entity) (t ++ [.bind l]) := by
  refine ⟨?_, lawful_concat_iff.2 ⟨h.lawful, ?_⟩⟩
  · have hframes := h.frames_eq
    rw [frames_append, run_cons, run_nil, step]
    cases hfs : frames t with
    | nil => simp [hfs] at hframes
    | cons f fs =>
        rw [hfs, List.map_cons] at hframes
        obtain ⟨hinner, houter⟩ := List.cons.inj hframes
        simp only [List.headD_cons, List.tail_cons, List.map_cons, hinner, houter]
        rfl
  · intro other hother htext
    rw [(h.declares_iff l.text).2 ⟨other, hother, htext⟩] at hnew
    cases hnew

theorem use (h : Follows scope t) {l : Link}
    (hfound : scope.lookup? l.text = some l.entity) : Follows scope (t ++ [.use l]) := by
  refine ⟨?_, lawful_concat_iff.2 ⟨h.lawful, h.resolves_of_lookup? hfound⟩⟩
  rw [frames_append]
  exact h.frames_eq

/-- Leaving a scope brings back what was around it. -/
theorem leave {inner : Scope} (h : Follows inner t)
    (houter : inner.outer = scope.inner :: scope.outer) :
    Follows scope (t ++ [.leave]) := by
  refine ⟨?_, lawful_concat_iff.2 ⟨h.lawful, trivial⟩⟩
  rw [frames_append, run_cons, run_nil, step, List.map_tail, h.frames_eq, List.tail_cons, houter]

end Follows

/-! ## Advancing along a program -/

/-- Along these marks, of names before and of entities after analysis, one scope becomes another:
whatever lawful trail has led to the first, the marks belong together and continue it lawfully. -/
def Advances (scope scope' : Scope) (names : Trail Surface.Name) (entities : Trail Entity) :
    Prop :=
  scope'.outer = scope.outer ∧
    ∀ t, Follows scope t → ∃ links : Trail Link,
      links.map (Mark.map Link.name) = names ∧ links.map (Mark.map Link.entity) = entities ∧
        Follows scope' (t ++ links)

namespace Advances

variable {scope scope₁ scope₂ : Scope} {names names₁ names₂ : Trail Surface.Name}
  {entities entities₁ entities₂ : Trail Entity}

theorem refl (scope : Scope) : Advances scope scope [] [] := by
  refine ⟨rfl, fun t ht ↦ ⟨[], rfl, rfl, ?_⟩⟩
  simpa using ht

theorem trans (h₁ : Advances scope scope₁ names₁ entities₁)
    (h₂ : Advances scope₁ scope₂ names₂ entities₂) :
    Advances scope scope₂ (names₁ ++ names₂) (entities₁ ++ entities₂) := by
  refine ⟨h₂.1.trans h₁.1, fun t ht ↦ ?_⟩
  obtain ⟨links₁, rfl, rfl, hfollows₁⟩ := h₁.2 t ht
  obtain ⟨links₂, rfl, rfl, hfollows₂⟩ := h₂.2 _ hfollows₁
  exact ⟨links₁ ++ links₂, by simp, by simp, by simpa using hfollows₂⟩

theorem use {name : Surface.Name} {entity : Entity}
    (hfound : scope.lookup? name.text = some entity) :
    Advances scope scope [.use name] [.use entity] := by
  refine ⟨rfl, fun t ht ↦ ⟨[.use ⟨name, entity⟩], rfl, rfl, ?_⟩⟩
  have huse : scope.lookup? (Link.text ⟨name, entity⟩) = some (Link.entity ⟨name, entity⟩) :=
    hfound
  exact ht.use huse

theorem uses {names : List Surface.Name} {entities : List Entity}
    (h : List.Forall₂ (fun name entity ↦ scope.lookup? name.text = some entity) names entities) :
    Advances scope scope (names.map .use) (entities.map .use) := by
  induction h with
  | nil => exact refl scope
  | cons hfound _ ih => exact (use hfound).trans ih

theorem bind {name : Surface.Name} (entity : Entity)
    (hnew : scope.declares name.text = false) :
    Advances scope (scope.declare name.text entity) [.bind name] [.bind entity] := by
  refine ⟨rfl, fun t ht ↦ ⟨[.bind ⟨name, entity⟩], rfl, rfl, ?_⟩⟩
  have hdeclare : scope.declares (Link.text ⟨name, entity⟩) = false := hnew
  exact ht.declare hdeclare

/-- A body has a scope of its own. -/
theorem nested (h : Advances scope.enter scope₁ names entities) :
    Advances scope scope (Trail.nested names) (Trail.nested entities) := by
  refine ⟨rfl, fun t ht ↦ ?_⟩
  obtain ⟨links, rfl, rfl, hfollows⟩ := h.2 _ ht.enter
  refine ⟨Trail.nested links, by simp [Trail.nested, Mark.map],
    by simp [Trail.nested, Mark.map], ?_⟩
  have hleave := hfollows.leave h.1
  simpa [Trail.nested] using hleave

end Advances

/-! ## Blaming an identifier -/

/-- The errors that are about the names in scope. -/
def Cause.isNaming : Cause → Bool
  | undeclared _ | alreadyDeclared _ => true
  | _ => false

/-- Behind the trail `t` the error is to blame on one of these marks, unless it is not about names:
an identifier that no scope around it declares, or that its own scope has declared already. -/
def BlamesAfter (t names : Trail Surface.Name) (e : SemanticError) : Prop :=
  e.cause.isNaming = false ∨
    (∃ pre name post, names = pre ++ .use name :: post ∧
      e = ⟨.undeclared name.text, name.span⟩ ∧
      ∀ out other, Declares (t ++ pre) out other → other.text ≠ name.text) ∨
    ∃ pre name post, names = pre ++ .bind name :: post ∧
      e = ⟨.alreadyDeclared name.text, name.span⟩ ∧
      ∃ other, Declares (t ++ pre) 0 other ∧ other.text = name.text

/-- Whatever lawful trail has led to the scope, the error is to blame on one of these marks. -/
def Blames (scope : Scope) (names : Trail Surface.Name) (e : SemanticError) : Prop :=
  ∀ t, Follows scope t → BlamesAfter (t.map (Mark.map Link.name)) names e

namespace Blames

variable {scope scope₁ : Scope} {names names₁ names₂ : Trail Surface.Name}
  {entities : Trail Entity} {e : SemanticError}

theorem of_not_naming (h : e.cause.isNaming = false) : Blames scope names e :=
  fun _ _ ↦ .inl h

theorem append_left (h : Blames scope names₁ e) : Blames scope (names₁ ++ names₂) e := by
  intro t ht
  rcases h t ht with hother | ⟨pre, name, post, rfl, he⟩ | ⟨pre, name, post, rfl, he⟩
  · exact .inl hother
  · exact .inr (.inl ⟨pre, name, post ++ names₂, by simp, he⟩)
  · exact .inr (.inr ⟨pre, name, post ++ names₂, by simp, he⟩)

theorem append_right (hfirst : Advances scope scope₁ names₁ entities)
    (h : Blames scope₁ names₂ e) : Blames scope (names₁ ++ names₂) e := by
  intro t ht
  obtain ⟨links, rfl, -, hfollows⟩ := hfirst.2 t ht
  rcases h _ hfollows with hother | ⟨pre, name, post, rfl, he, hnone⟩ |
    ⟨pre, name, post, rfl, he, hsome⟩
  · exact .inl hother
  · refine .inr (.inl ⟨links.map (Mark.map Link.name) ++ pre, name, post, by simp, he, ?_⟩)
    simpa using hnone
  · refine .inr (.inr ⟨links.map (Mark.map Link.name) ++ pre, name, post, by simp, he, ?_⟩)
    simpa using hsome

theorem nested (h : Blames scope.enter names e) : Blames scope (Trail.nested names) e := by
  intro t ht
  rcases h _ ht.enter with hother | ⟨pre, name, post, rfl, he, hnone⟩ |
    ⟨pre, name, post, rfl, he, hsome⟩
  · exact .inl hother
  · refine .inr (.inl ⟨.enter :: pre, name, post ++ [.leave], by simp [Trail.nested], he, ?_⟩)
    simpa [Mark.map] using hnone
  · refine .inr (.inr ⟨.enter :: pre, name, post ++ [.leave], by simp [Trail.nested], he, ?_⟩)
    simpa [Mark.map] using hsome

theorem bind {name : Surface.Name} (hold : scope.declares name.text = true) :
    Blames scope [.bind name] ⟨.alreadyDeclared name.text, name.span⟩ := by
  intro t ht
  obtain ⟨l, hl, htext⟩ := (ht.declares_iff name.text).1 hold
  refine .inr (.inr ⟨[], name, [], rfl, rfl, l.name, ?_, htext⟩)
  rw [List.append_nil]
  exact declares_map_iff.2 ⟨l, rfl, hl⟩

end Blames
end Analysis
end Barista
