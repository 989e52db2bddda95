import Barista.Proofs.Analysis.ErrorSpan
import Barista.Proofs.Analysis.LexicalScope

/-!
# Entities are named by tokens

The name of a declaration stands in the text as an identifier, and the entity that is declared there
keeps it.  So whatever occurs in an accepted program is called by an identifier of its text.
-/

namespace Barista

/-- The text has the name among its identifiers. -/
def Mentions (source name : String) : Prop :=
  ∃ l : Lexeme, .lexeme l ∈ Item.ofSource source ∧ l.token = .ident name

namespace Surface

/-! ## Declared names in the text -/

def Site.name : Site → Name
  | .variable name | .function name => name

namespace SpanTree

variable {t : SpanTree} {ts : List SpanTree} {token : Option Token} {span : Span}

theorem mem_nodesOf_of_mem (h : t ∈ ts) : t ∈ nodesOf ts := by
  refine mem_nodesOf.2 ⟨t, h, ?_⟩
  rw [nodes_eq]
  exact List.mem_cons_self

theorem nodesOf_append (ts us : List SpanTree) :
    nodesOf (ts ++ us) = nodesOf ts ++ nodesOf us := by
  induction ts with
  | nil => rfl
  | cons t ts ih => rw [List.cons_append, nodesOf, nodesOf, ih, List.append_assoc]

theorem mem_nodesOf_cons (h : t ∈ nodesOf ts) (u : SpanTree) : t ∈ nodesOf (u :: ts) := by
  rw [nodesOf]
  exact List.mem_append_right _ h

theorem mem_nodesOf_phrase (h : t ∈ nodesOf ts) : t ∈ nodesOf [node token span ts] := by
  rw [nodesOf, nodes, nodesOf, List.append_nil]
  exact List.mem_cons_of_mem _ h

end SpanTree

open SpanTree (nodesOf nodesOf_append mem_nodesOf_of_mem mem_nodesOf_cons mem_nodesOf_phrase)

/-- The sites declare names that are among the phrases. -/
def Shown (sites : List Site) (ts : List SpanTree) : Prop :=
  ∀ site ∈ sites, site.name.spanTree ∈ nodesOf ts

theorem Shown.append {sites sites' : List Site} {ts us : List SpanTree} (h : Shown sites ts)
    (h' : Shown sites' us) : Shown (sites ++ sites') (ts ++ us) := by
  intro site hsite
  rw [nodesOf_append, List.mem_append]
  exact (List.mem_append.1 hsite).imp (h site) (h' site)

theorem Shown.within {sites : List Site} {ts : List SpanTree} (h : Shown sites ts)
    (token : Option Token) (span : Span) : Shown sites [.node token span ts] := by
  intro site hsite
  exact mem_nodesOf_phrase (h site hsite)

theorem Shown.behind {sites : List Site} {ts : List SpanTree} (h : Shown sites ts)
    (t : SpanTree) : Shown sites (t :: ts) := by
  intro site hsite
  exact mem_nodesOf_cons (h site hsite) t

theorem shown_nil (ts : List SpanTree) : Shown [] ts := List.forall_mem_nil _

theorem Shown.cons {site : Site} {sites : List Site} {ts : List SpanTree} (h : Shown sites ts) :
    Shown (site :: sites) (site.name.spanTree :: ts) := by
  refine List.forall_mem_cons.2 ⟨mem_nodesOf_of_mem List.mem_cons_self, ?_⟩
  exact h.behind _

theorem shown_params (params : List Param) :
    Shown (params.map fun p ↦ .variable p.name) (params.flatMap Param.spanTrees) := by
  intro site hsite
  obtain ⟨p, hp, rfl⟩ := List.mem_map.1 hsite
  exact mem_nodesOf_of_mem (List.mem_flatMap.2 ⟨p, hp, List.mem_cons_self⟩)

mutual

theorem shown_sites : ∀ s : Stmt, Shown s.sites s.spanTrees
  | .declare _ _ _ => (shown_nil _).cons.behind _
  | .function _ params _ body =>
      ((shown_params params).append ((shown_allSites body).behind _)).cons
  | .cond _ body rest _ =>
      (((shown_allSites body).append (shown_chainSites rest)).behind _).within _ _
  | .loop _ body _ => ((shown_allSites body).behind _).within _ _
  | .each _ _ body _ => ((shown_allSites body).behind _).cons.within _ _
  | .assign _ _ _ _ | .print _ _ | .ret _ _ | .call _ _ _ => shown_nil _

theorem shown_allSites : ∀ b : List Stmt, Shown (Stmt.allSites b) (Stmt.spanForest b)
  | [] => shown_nil _
  | s :: rest => (shown_sites s).append (shown_allSites rest)

theorem shown_chainSites : ∀ c : Chain, Shown c.sites c.spanTrees
  | .finish => shown_nil _
  | .otherwise body => shown_allSites body
  | .also _ body rest => ((shown_allSites body).append (shown_chainSites rest)).behind _

end

theorem mentions_of_mem_allSites {source : String} {statements : List Stmt} {site : Site}
    (h : parse source = .ok statements) (hsite : site ∈ Stmt.allSites statements) :
    Mentions source site.name.text := by
  obtain ⟨r, hderives, hnil⟩ := isProgram_of_parse h
  obtain ⟨⟨ls, hreads⟩, hlaid⟩ := hderives.laidBetween (Item.ofSource source)
  have hlaid := hlaid (along_ofSource hreads hnil)
  have hnode := shown_allSites statements site hsite
  obtain ⟨l, hl, htoken, -⟩ := (hlaid.of_mem_nodesOf hnode).1.token _ rfl
  exact ⟨l, hl, htoken⟩

end Surface

/-! ## Names of entities -/

open Barista.Core (Entity Program)

theorem Analysis.Numbered.exists_site {statements : List Surface.Stmt} {p : Program}
    (h : Numbered statements p) {entity : Entity} (hentity : p.entities.Has entity) :
    ∃ site ∈ Surface.Stmt.allSites statements, site.name.text = p.entities.nameOf entity := by
  rcases entity with id | id
  · have hname : p.entities.nameOf (.variable id) ∈ p.entities.vars.map Core.Variable.name := by
      rw [Core.Entities.nameOf, Core.Entities.findVariable?, List.getElem?_eq_getElem hentity]
      exact List.mem_map_of_mem (List.getElem_mem hentity)
    rw [h.varNames] at hname
    obtain ⟨name | name, hsite, hname⟩ := List.mem_filterMap.1 hname
    · exact ⟨_, hsite, Option.some.inj hname⟩
    · cases hname
  · have hname : p.entities.nameOf (.function id) ∈ p.entities.funs.map Core.Function.name := by
      rw [Core.Entities.nameOf, Core.Entities.findFunction?, List.getElem?_eq_getElem hentity]
      exact List.mem_map_of_mem (List.getElem_mem hentity)
    rw [h.funNames] at hname
    obtain ⟨name | name, hsite, hname⟩ := List.mem_filterMap.1 hname
    · cases hname
    · exact ⟨_, hsite, Option.some.inj hname⟩

/-- Whatever occurs in an accepted program is called by an identifier of the text. -/
theorem mentions_nameOf {source : String} {p : Program} (h : analyze source = .ok p)
    {entity : Entity} (hentity : entity ∈ p.occurrences) :
    Mentions source (p.entities.nameOf entity) := by
  obtain ⟨statements, s, hparse, hblock, hentities⟩ := block_of_analyze h
  have hnumbered := Analysis.numbered_of_block hblock hentities
  have hdeclared := Analysis.declared_of_occurs hblock hentities hentity
  obtain ⟨site, hsite, hname⟩ := hnumbered.exists_site (hnumbered.mem_declared_iff.1 hdeclared)
  rw [← hname]
  exact Surface.mentions_of_mem_allSites hparse hsite

/-- An identifier has the form of a name, also where a keyword is taken for one. -/
theorem mem_name_of_mentions {source name : String} (h : Mentions source name) :
    name.toList ∈ Pattern.name := by
  obtain ⟨l, hl, htoken⟩ := h
  obtain ⟨items, others, hitems⟩ := List.append_of_mem hl
  obtain ⟨before, text, after, -, -, hplain, hmasked⟩ := Item.accords_of_scan [] rfl hitems
  by_cases hmask : Munch.Masked text after
  · obtain ⟨hident, -⟩ := hmasked hmask
    rw [htoken, Token.ident.injEq] at hident
    rw [hident, String.toList_ofList]
    exact Pattern.mem_name_of_mem_keyword hmask.1
  · obtain ⟨hname, -, htext⟩ := (hplain hmask _).2 htoken
    rwa [htext]

end Barista
