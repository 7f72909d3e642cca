/-
  Patchbay.Template.Source — where templates come from.

  A directory holds the template of type `n` in the file `n.txt`; a list of texts holds it
  under the key `n`, a later text replacing an earlier one. Only a file that is not there
  means that a type has no template; one that cannot be read is an error.
-/

import Patchbay.Event

namespace Patchbay.Template

inductive Source where
  | directory (disk : Disk) (root : Path)
  | texts (entries : List (Nat × String))

namespace Source

/-- The file of a type's template in a directory. -/
def pathFor (root : Path) (typeId : Nat) : Path := root.join s!"{typeId}.txt"

/-- The last text under a key. -/
def textFor? (entries : List (Nat × String)) (typeId : Nat) : Option String := entries.reverse.lookup typeId

def load (source : Source) (typeId : Nat) : Logged (Except TemplateError Template) :=
  match source with
  | .directory disk root =>
    let path := pathFor root typeId
    match disk.readText path with
    | .error .notFound => ⟨[], .error (.notFound typeId)⟩
    | .error fault => ⟨[], .error (.unreadable path fault)⟩
    | .ok text => ⟨[.loadedTemplate path], parse typeId text path.text⟩
  | .texts entries =>
    match textFor? entries typeId with
    | none => ⟨[], .error (.notFound typeId)⟩
    | some text => ⟨[], parse typeId text s!"<template {typeId}>"⟩

/-- Whether there is something to load, well formed or not. -/
def contains (source : Source) (typeId : Nat) : Bool :=
  match source with
  | .directory disk root => disk.isFile (pathFor root typeId)
  | .texts entries => (textFor? entries typeId).isSome

end Source

end Patchbay.Template
