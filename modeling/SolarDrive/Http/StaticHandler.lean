import SolarDrive.Http.Request
import SolarDrive.Http.Response
import SolarDrive.Lib.LexicalPath

/-!
# Static files

The files of the web pages. A request path becomes a file name behind the root
directory, and the one test on it is that the text `..` occurs nowhere. A
`FileAccess` is the file system as `ifstream` sees it: what a name holds, and
the names that were opened so far.
-/

namespace SolarDrive.Http

open Lib

structure FileAccess where
  files : Bytes → Option Bytes
  opened : List Bytes

/-- `std::ifstream in(path)` and what can be read from it; the system sees the
name up to its first NUL. -/
def ifstream (path : Bytes) (fs : FileAccess) : Option Bytes × FileAccess :=
  (fs.files (cstr path), { fs with opened := fs.opened ++ [path] })

structure StaticHandler where
  rootDir : Bytes

namespace StaticHandler

/-- The constructor takes one slash off the end. -/
def new (rootDir : Bytes) : StaticHandler :=
  ⟨if rootDir ≠ [] ∧ rootDir.getLast? = some SLASH then rootDir.dropLast else rootDir⟩

def mapUrlToFile (path : Bytes) : Bytes :=
  if path = [] ∨ path = ascii "/" then ascii "index.html"
  else if path.head? = some SLASH then path.drop 1
  else path

def guessMime (filePath : Bytes) : Bytes :=
  if DOT ∉ filePath then ascii "application/octet-stream"
  else
    let ext := DOT :: (filePath.reverse.takeWhile (· != DOT)).reverse
    if ext = ascii ".html" ∨ ext = ascii ".htm" then ascii "text/html; charset=utf-8"
    else if ext = ascii ".css" then ascii "text/css; charset=utf-8"
    else if ext = ascii ".js" then ascii "application/javascript; charset=utf-8"
    else if ext = ascii ".json" then ascii "application/json; charset=utf-8"
    else if ext = ascii ".svg" then ascii "image/svg+xml"
    else if ext = ascii ".png" then ascii "image/png"
    else if ext = ascii ".ico" then ascii "image/x-icon"
    else ascii "application/octet-stream"

def isSafeRelativePath (rel : Bytes) : Bool :=
  if rel = [] then false
  else if rel.head? = some SLASH then false
  else if (afterFirst (ascii "..") rel).isSome then false
  else true

def tryServe (handler : StaticHandler) (req : HttpRequest) (resp : HttpResponse)
    (fs : FileAccess) : (Bool × HttpResponse) × FileAccess :=
  if req.method ≠ .GET then ((false, resp), fs)
  else if (ascii "/api/").isPrefixOf req.path then ((false, resp), fs)
  else
    let rel := mapUrlToFile req.path
    if isSafeRelativePath rel = false then ((false, resp), fs)
    else
      let fullPath := handler.rootDir ++ ascii "/" ++ rel
      match ifstream fullPath fs with
      | (none, fs) => ((false, resp), fs)
      | (some content, fs) =>
          ((true, (((resp.setStatus 200 (ascii "OK")).setBody content).setHeader
            (ascii "Content-Type") (guessMime rel)).setHeader
            (ascii "Cache-Control") (ascii "no-cache")), fs)

end StaticHandler

/-- A safe name has no part that goes up, wherever it is cut. -/
theorem dots_not_mem_of_safe {rel : Bytes} (h : StaticHandler.isSafeRelativePath rel = true) :
    DOTS ∉ (cstr rel).splitOn SLASH := by
  intro hm
  have hin : DOTS <:+: rel := (infix_of_mem_splitOn hm).trans (cstr_head rel).isInfix
  have hfound : (afterFirst (ascii "..") rel).isSome = true := afterFirst_isSome hin
  unfold StaticHandler.isSafeRelativePath at h
  split at h
  · cases h
  · split at h
    · cases h
    · exact absurd h Bool.false_ne_true

/-- What `try_serve` opens is a safe name behind the root. -/
theorem tryServe_opened (handler : StaticHandler) (req : HttpRequest) (resp : HttpResponse)
    (fs : FileAccess) :
    (handler.tryServe req resp fs).2.opened = fs.opened ∨
      ∃ rel, StaticHandler.isSafeRelativePath rel = true ∧
        (handler.tryServe req resp fs).2.opened
          = fs.opened ++ [handler.rootDir ++ SLASH :: rel] := by
  unfold StaticHandler.tryServe
  split
  · exact .inl rfl
  · split
    · exact .inl rfl
    · dsimp only
      split
      · exact .inl rfl
      · rename_i hsafe
        rw [Bool.not_eq_false] at hsafe
        refine .inr ⟨_, hsafe, ?_⟩
        have hpath : handler.rootDir ++ ascii "/" ++ StaticHandler.mapUrlToFile req.path
            = handler.rootDir ++ SLASH :: StaticHandler.mapUrlToFile req.path :=
          List.append_assoc ..
        rw [hpath]
        unfold ifstream
        cases fs.files (cstr (handler.rootDir ++ SLASH :: StaticHandler.mapUrlToFile req.path)) <;> rfl

/-- The root of a handler is the directory it was made for, written with or
without the slash at its end. -/
theorem new_rootDir (rootDir : Bytes) :
    (StaticHandler.new rootDir).rootDir ++ [SLASH] = rootDir ∨
      (StaticHandler.new rootDir).rootDir = rootDir := by
  unfold StaticHandler.new
  dsimp only
  split
  · rename_i h
    left
    have hlast := List.dropLast_append_getLast? SLASH h.2
    exact hlast
  · exact .inr rfl

theorem opened_below_root {rootDir rel : Bytes} (hroot : rootDir ≠ [])
    (hsafe : StaticHandler.isSafeRelativePath rel = true) :
    LexicalPath.Below (LexicalPath.normalise rootDir)
      (LexicalPath.normalise ((StaticHandler.new rootDir).rootDir ++ SLASH :: rel)) := by
  generalize hdir : (StaticHandler.new rootDir).rootDir = dir
  have hnew : dir ++ [SLASH] = rootDir ∨ dir = rootDir := hdir ▸ new_rootDir rootDir
  by_cases hnul : NUL ∈ dir
  · -- the system sees neither the slash nor what follows it
    have hopened := LexicalPath.normalise_append_of_mem hnul (SLASH :: rel)
    rcases hnew with rfl | rfl
    · rw [hopened, ← LexicalPath.normalise_append_of_mem hnul [SLASH]]
      exact LexicalPath.below_refl _
    · rw [hopened]
      exact LexicalPath.below_refl _
  · have hbelow := LexicalPath.below_append hnul (dots_not_mem_of_safe hsafe)
    rcases hnew with rfl | rfl
    · exact hbelow
    · rwa [LexicalPath.normalise_append_slash hnul hroot] at hbelow

/-- **Static files stay under the web root, and API paths are not theirs.** -/
theorem static_files_stay_under_root (rootDir : Bytes) (hroot : rootDir ≠ []) (req : HttpRequest)
    (resp : HttpResponse) (fs : FileAccess) :
    (∃ names, ((StaticHandler.new rootDir).tryServe req resp fs).2.opened = fs.opened ++ names ∧
      ∀ name ∈ names, LexicalPath.Below (LexicalPath.normalise rootDir)
        (LexicalPath.normalise name)) ∧
    (ascii "/api/" <+: req.path →
      (StaticHandler.new rootDir).tryServe req resp fs = ((false, resp), fs)) := by
  constructor
  · rcases tryServe_opened (StaticHandler.new rootDir) req resp fs with hnone | ⟨rel, hsafe, hopened⟩
    · refine ⟨[], by rw [hnone, List.append_nil], fun name hname => ?_⟩
      exact absurd hname List.not_mem_nil
    · refine ⟨_, hopened, fun name hname => ?_⟩
      rw [List.mem_singleton.mp hname]
      exact opened_below_root hroot hsafe
  · intro hapi
    have hprefix : (ascii "/api/").isPrefixOf req.path = true := List.isPrefixOf_iff_prefix.mpr hapi
    unfold StaticHandler.tryServe
    rw [if_pos hprefix]
    exact ite_self _

/-- A page below the root of the tests, asked for with a dot in its path. -/
theorem static_page_below_root :
    ∃ names, ((StaticHandler.new (ascii "web/")).tryServe
        { method := .GET, path := ascii "/./js//app.js" } {} ⟨fun _ => some [], []⟩).2.opened = names ∧
      names = [ascii "web/./js//app.js"] ∧
      ∀ name ∈ names, LexicalPath.Below (LexicalPath.normalise (ascii "web/"))
        (LexicalPath.normalise name) := by
  obtain ⟨⟨names, hopened, hbelow⟩, -⟩ := static_files_stay_under_root (ascii "web/") (by decide)
    { method := .GET, path := ascii "/./js//app.js" } {} ⟨fun _ => some [], []⟩
  have hnames : names = [ascii "web/./js//app.js"] := by
    rw [List.nil_append] at hopened
    rw [← hopened]
    decide
  exact ⟨names, by rw [hopened, List.nil_append], hnames, hbelow⟩

end SolarDrive.Http
