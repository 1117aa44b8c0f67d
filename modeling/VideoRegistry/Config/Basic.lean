import VideoRegistry.Text.Pieces

/-!
# Configuration

What a run is asked to do: where to read and write, which names the header uses,
which names mark codec headers in a registry, and which formatter to run.  Every
field has the value that fits the Vulkan video registry as its default.
-/

namespace VideoRegistry

structure OutputConfig where
  file : String := "vulkan_video.hpp"
  guard : String := "VULKAN_VIDEO_HPP"
deriving DecidableEq, Repr

/-- Names that turn registry names into names of the header.  `typeLead` marks
the types that belong to the registry and is dropped from their names. -/
structure NameConfig where
  typeLead : String := "StdVideo"
  outerNamespace : String := "VULKAN_HPP_NAMESPACE"
  videoNamespace : String := "VULKAN_HPP_VIDEO_NAMESPACE"
  videoNamespaceDefault : String := "video"
deriving DecidableEq, Repr

/-- `supported` is the only accepted value of an extension's attribute of that
name; the other two describe the names of codec headers. -/
structure DialectConfig where
  supported : String := "vulkan"
  headerDir : String := "vk_video/"
  headerStem : String := "vulkan_video_codec"
deriving DecidableEq, Repr

/-- An external formatter; the path of the header is its last argument. -/
structure FormatterConfig where
  program : String
  args : List String := []
deriving DecidableEq, Repr

def defaultIncludes : List String :=
  ["vk_video/vulkan_video_codecs_common.h",
    "vk_video/vulkan_video_codec_h264std.h",
    "vk_video/vulkan_video_codec_h264std_decode.h",
    "vk_video/vulkan_video_codec_h264std_encode.h",
    "vk_video/vulkan_video_codec_h265std.h",
    "vk_video/vulkan_video_codec_h265std_decode.h",
    "vk_video/vulkan_video_codec_h265std_encode.h",
    "vulkan/vulkan.hpp"]

structure Config where
  input : String := "video.xml"
  output : OutputConfig := {}
  names : NameConfig := {}
  dialect : DialectConfig := {}
  includes : List String := defaultIncludes
  formatter : Option FormatterConfig := none
deriving DecidableEq, Repr

/-- The namespace of emitted registry types. -/
def NameConfig.qualifiedNamespace (names : NameConfig) : String :=
  names.outerNamespace ++ "::" ++ names.videoNamespace

/-- The extension that a codec header stands for:
`vk_video/vulkan_video_codec_h264std.h` stands for
`vulkan_video_codec_h264std`.  The stem may reach into the ending. -/
def DialectConfig.headerExtension? (dialect : DialectConfig) (name : String) :
    Option String :=
  match Text.after? dialect.headerDir.toList name.toList with
  | none => none
  | some rest =>
      let file := String.ofList rest
      if Text.beginsWith file dialect.headerStem && Text.endsWith file ".h" then
        some (Text.stripEnding file ".h")
      else none

end VideoRegistry
