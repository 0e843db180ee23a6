/-! # The kinds of relationship

A model can be related to another one in nine ways. They differ in where the link is stored (on the
related document, on the owner, in the rows of a pivot collection, or two steps away), in whether a
discriminator tells owners of several types apart, and in whether an owner has one or many. -/

namespace DocMapper

/-- A kind of relationship between an owner and its related documents. -/
inductive RelationKind where
  /-- The related document holds the owner's key; there is one. -/
  | hasOne
  /-- The owner holds the key of the related document. -/
  | belongsTo
  /-- The related documents hold the owner's key. -/
  | hasMany
  /-- Pivot rows pair the keys of both sides. -/
  | belongsToMany
  /-- The related documents hold the key of an intermediate document, which holds the owner's. -/
  | hasManyThrough
  /-- The related document holds the owner's key and type; there is one. -/
  | morphTo
  /-- The related documents hold the owner's key and type. -/
  | morphMany
  /-- Pivot rows pair the keys of both sides and hold the owner's type. -/
  | morphToMany
  /-- Pivot rows pair the keys of both sides and hold the related type. -/
  | morphedByMany
  deriving DecidableEq, Repr

namespace RelationKind

def all : List RelationKind :=
  [hasOne, belongsTo, hasMany, belongsToMany, hasManyThrough, morphTo, morphMany, morphToMany,
    morphedByMany]

/-- Whether a discriminator tells owners of several types apart. -/
def isPolymorphic : RelationKind → Bool
  | morphTo | morphMany | morphToMany | morphedByMany => true
  | _ => false

/-- Whether an owner has at most one related document. -/
def isSingle : RelationKind → Bool
  | hasOne | belongsTo | morphTo => true
  | _ => false

/-- Whether an owner has a list of related documents. -/
def isCollection (k : RelationKind) : Bool := !k.isSingle

/-- Whether the link is stored in the rows of a pivot collection. -/
def hasPivot : RelationKind → Bool
  | belongsToMany | morphToMany | morphedByMany => true
  | _ => false

/-- Whether the related documents themselves hold the link to the owner. -/
def isOwning : RelationKind → Bool
  | hasOne | hasMany | morphTo | morphMany => true
  | _ => false

def name : RelationKind → String
  | hasOne => "hasOne"
  | belongsTo => "belongsTo"
  | hasMany => "hasMany"
  | belongsToMany => "belongsToMany"
  | hasManyThrough => "hasManyThrough"
  | morphTo => "morphTo"
  | morphMany => "morphMany"
  | morphToMany => "morphToMany"
  | morphedByMany => "morphedByMany"

end RelationKind

end DocMapper
